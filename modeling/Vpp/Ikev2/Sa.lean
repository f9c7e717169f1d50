import Vpp.Ikev2.Types

/-! The state of an IKE SA (`ikev2_priv.h`) and the IKE header.

    Left out are the fields no modelled function reads: counters, log data and the floating-point
    times of the expiry process. A vector that is null is the empty list. -/

namespace Vpp.Ikev2
open Vpp.Schemes List

/-- `ikev2_state_t`. -/
inductive IkeState where
  | unknown | saInit | deleted | authFailed | authenticated | notifyAndDelete | tsUnacceptable
  | noProposalChosen
  deriving DecidableEq

/-- `ikev2_natt_state_t`. -/
inductive NattState where
  | enabled | disabled | active
  deriving DecidableEq

/-- `ikev2_child_sa_t`. -/
structure ChildSa where
  iProposals : List SaProposal := []
  rProposals : List SaProposal := []
  tsi : List Ts := []
  tsr : List Ts := []
  skAi : Bytes := []
  skAr : Bytes := []
  skEi : Bytes := []
  skEr : Bytes := []
  saltEi : Bytes := []
  saltEr : Bytes := []
  localSaId : BitVec 32 := 0
  remoteSaId : BitVec 32 := 0
  deriving DecidableEq

/-- `ikev2_rekey_t`: a child SA being created or rekeyed. -/
structure Rekey where
  notifyType : BitVec 16 := 0
  kex : Bool := false
  protocolId : Byte := 0
  spi : BitVec 32 := 0
  iProposal : List SaProposal := []
  rProposal : List SaProposal := []
  tsi : List Ts := []
  tsr : List Ts := []
  deriving DecidableEq

/-- `ikev2_sa_rekey_t`: an IKE SA being rekeyed. -/
structure SaRekey where
  notifyType : BitVec 16 := 0
  dhGroup : BitVec 16 := 0
  ispi : BitVec 64 := 0
  rspi : BitVec 64 := 0
  iNonce : Bytes := []
  rNonce : Bytes := []
  dhSharedKey : Bytes := []
  dhPrivateKey : Bytes := []
  iDhData : Bytes := []
  rDhData : Bytes := []
  iProposals : List SaProposal := []
  rProposals : List SaProposal := []
  deriving DecidableEq

/-- `ikev2_sa_t`. The defaults are the zeroes of `clib_memset`. -/
structure Sa where
  state : IkeState := .unknown
  unsupportedCp : Byte := 0
  initialContact : Bool := false
  iaddr : IpAddress := .ip4 0
  raddr : IpAddress := .ip4 0
  ispi : BitVec 64 := 0
  rspi : BitVec 64 := 0
  iNonce : Bytes := []
  rNonce : Bytes := []
  dhGroup : BitVec 16 := 0
  dhSharedKey : Bytes := []
  dhPrivateKey : Bytes := []
  iDhData : Bytes := []
  rDhData : Bytes := []
  iProposals : List SaProposal := []
  rProposals : List SaProposal := []
  skD : Bytes := []
  skAi : Bytes := []
  skAr : Bytes := []
  skEi : Bytes := []
  skEr : Bytes := []
  skPi : Bytes := []
  skPr : Bytes := []
  iAuth : Auth := ⟨0, [], 0⟩
  rAuth : Auth := ⟨0, [], 0⟩
  iId : Id := ⟨0, []⟩
  rId : Id := ⟨0, []⟩
  del : List Delete := []
  rekey : List Rekey := []
  newChild : List Rekey := []
  saRekey : List SaRekey := []
  lastSaInitReqPacketData : Bytes := []
  lastSaInitResPacketData : Bytes := []
  lastMsgId : BitVec 32 := 0
  lastResPacketData : Bytes := []
  isInitiator : Bool := false
  lastInitMsgId : BitVec 32 := 0
  profileIndex : BitVec 32 := 0
  isTunItfSet : Bool := false
  tunItf : BitVec 32 := 0
  udpEncap : Bool := false
  ipsecOverUdpPort : BitVec 16 := 0
  currentRemoteIdMask : BitVec 32 := 0
  oldRemoteId : BitVec 32 := 0
  oldRemoteIdPresent : Bool := false
  initResponseReceived : Bool := false
  childs : List ChildSa := []
  livenessRetries : Byte := 0
  dstPort : BitVec 16 := 0
  swIfIndex : BitVec 32 := 0
  nattState : NattState := .enabled
  keysGenerated : Bool := false
  deriving DecidableEq

/-! ### The IKE header -/

abbrev ikeVersion2 : Byte := 0x20

abbrev exchangeSaInit : Byte := 34
abbrev exchangeIkeAuth : Byte := 35
abbrev exchangeCreateChildSa : Byte := 36
abbrev exchangeInformational : Byte := 37

abbrev hdrFlagInitiator : Byte := 0x08
abbrev hdrFlagResponse : Byte := 0x20

/-- `ike_header_t`, in host byte order. -/
structure IkeHeader where
  ispi : BitVec 64
  rspi : BitVec 64
  nextpayload : Byte
  version : Byte
  exchange : Byte
  flags : Byte
  msgid : BitVec 32
  length : BitVec 32
  deriving DecidableEq

/-- The 28 bytes of the header. -/
def IkeHeader.bytes (h : IkeHeader) : Bytes :=
  toBe 8 h.ispi.toNat ++ (toBe 8 h.rspi.toNat ++ ([h.nextpayload, h.version, h.exchange, h.flags] ++
    (toBe 4 h.msgid.toNat ++ toBe 4 h.length.toNat)))

/-- The header at the start of a stored packet. -/
def IkeHeader.ofBytes (bs : Bytes) : IkeHeader where
  ispi := BitVec.ofNat 64 (fieldBe bs 0 8)
  rspi := BitVec.ofNat 64 (fieldBe bs 8 8)
  nextpayload := field8 bs 16
  version := field8 bs 17
  exchange := field8 bs 18
  flags := field8 bs 19
  msgid := BitVec.ofNat 32 (fieldBe bs 20 4)
  length := BitVec.ofNat 32 (fieldBe bs 24 4)

def IkeHeader.isResponse (h : IkeHeader) : Bool := decide (h.flags &&& hdrFlagResponse ≠ 0)
def IkeHeader.isRequest (h : IkeHeader) : Bool := !h.isResponse
def IkeHeader.isInitiator (h : IkeHeader) : Bool := decide (h.flags &&& hdrFlagInitiator ≠ 0)

@[simp] theorem IkeHeader.length_bytes (h : IkeHeader) : h.bytes.length = 28 := by
  simp [IkeHeader.bytes]

/-- A header is read back from a packet that starts with it. -/
theorem IkeHeader.ofBytes_bytes (h : IkeHeader) (rest : Bytes) :
    IkeHeader.ofBytes (h.bytes ++ rest) = h := by
  obtain ⟨ispi, rspi, np, ver, exch, flags, msgid, len⟩ := h
  let mid : Bytes := [np, ver, exch, flags]
  have hsplit : IkeHeader.bytes ⟨ispi, rspi, np, ver, exch, flags, msgid, len⟩ ++ rest =
      toBe 8 ispi.toNat ++ (toBe 8 rspi.toNat ++ (mid ++ (toBe 4 msgid.toNat ++
        (toBe 4 len.toNat ++ rest)))) := by simp [IkeHeader.bytes, mid]
  -- the offset of each number is the length of what is written before it
  have hispi := @fieldBe_toBe [] (toBe 8 rspi.toNat ++ (mid ++ (toBe 4 msgid.toNat ++
    (toBe 4 len.toNat ++ rest)))) 0 8 ispi.toNat rfl ispi.isLt
  have hrspi := @fieldBe_toBe (toBe 8 ispi.toNat) (mid ++ (toBe 4 msgid.toNat ++
    (toBe 4 len.toNat ++ rest))) 8 8 rspi.toNat (by simp) rspi.isLt
  have hmsgid := @fieldBe_toBe (toBe 8 ispi.toNat ++ (toBe 8 rspi.toNat ++ mid))
    (toBe 4 len.toNat ++ rest) 20 4 msgid.toNat (by simp [mid]) msgid.isLt
  have hlen := @fieldBe_toBe (toBe 8 ispi.toNat ++ (toBe 8 rspi.toNat ++ (mid ++ toBe 4 msgid.toNat)))
    rest 24 4 len.toNat (by simp [mid]) len.isLt
  have hmid : ∀ k < 4, field8 (toBe 8 ispi.toNat ++ (toBe 8 rspi.toNat ++ (mid ++
      (toBe 4 msgid.toNat ++ (toBe 4 len.toNat ++ rest))))) (16 + k) = mid.getD k 0 := by
    intro k hk
    rw [field8, getD_append_right _ _ _ _ (by simp; omega),
      getD_append_right _ _ _ _ (by simp; omega), getD_append _ _ _ _ (by simp [mid]; omega)]
    congr 1
    simp; omega
  simp only [append_assoc, nil_append] at hispi hrspi hmsgid hlen
  rw [hsplit, IkeHeader.ofBytes, hispi, hrspi, hmsgid, hlen, hmid 0 (by omega), hmid 1 (by omega),
    hmid 2 (by omega), hmid 3 (by omega)]
  simp [mid]

end Vpp.Ikev2
