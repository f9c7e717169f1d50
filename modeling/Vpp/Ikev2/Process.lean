import Vpp.Ikev2.Decrypt

/-! The payload loops of `ikev2.c`: `ikev2_process_sa_init_req`, `ikev2_process_sa_init_resp`,
    `ikev2_process_auth_req`, `ikev2_process_informational_req` and
    `ikev2_process_create_child_sa_req`.

    All five walk a chain of payloads in the same way and differ in what they do with each payload, so
    the walk is one definition (`payloadLoop`) and each function supplies its body. -/

namespace Vpp.Ikev2
open Vpp.Schemes

/-! ### The walk -/

/-- What the body of a loop does next: go on, or leave the function. -/
inductive Flow (σ : Type) where
  | next (s : σ)
  | exit (s : σ)

section
variable {σ : Type}

/-- The loop over the payloads at the start of `mem`, the first of which has type `payload`. `mem` is what
    can be read of the message, and `rlen` the length that the loop takes for it (`current_length`).
    `untilEnd` is the test `p < len` of the loop condition, `malformed` what is done when the declared
    length of a payload does not fit. The result says whether the loop ran to its end. A payload has at
    least four bytes, so one round more than there are bytes is never used up. -/
def payloadLoop (untilEnd : Bool) (malformed : σ → σ)
    (handle : σ → Byte → Bytes → ℕ → Except Fault (Flow σ)) :
    ℕ → Byte → Bytes → ℤ → σ → Except Fault (σ × Bool)
  | 0, _, _, _, _ => throw .divergence
  | fuel + 1, payload, mem, rlen, s => do
    if payload = payloadNone ∨ (untilEnd = true ∧ rlen = 0) then return (s, true)
    match ← ikev2CheckPayloadLength mem rlen with
    | none => return (malformed s, false)
    | some plen =>
      match ← handle s payload mem rlen.toNat with
      | .exit s => return (s, false)
      | .next s =>
        payloadLoop untilEnd malformed handle fuel (field8 (← slice mem 0 1) 0) (mem.drop plen)
          (rlen - plen) s

end

/-! ### IKE_SA_INIT -/

section
variable (cr : Crypto)

/-- `clib_memcmp (sha, n->data, 20)`: a mismatch of a NAT detection hash. A notify without data is a
    null pointer, which compares as equal. -/
def natMismatch (sha data : Bytes) : Except Fault Bool := do
  if data = [] then return false
  return decide (sha ≠ (← slice data 0 20))

/-- A NAT detection notify that does not match moves `natt_state` from ENABLED to ACTIVE. -/
def Sa.natDetected (sa : Sa) (mismatch : Bool) : Sa :=
  if mismatch && decide (sa.nattState = .enabled) then { sa with nattState := .active } else sa

/-- The loop body of `ikev2_process_sa_init_req`. -/
def saInitReqPayload (rx : Rx) (sa : Sa) (payload : Byte) (mem : Bytes) (rlen : ℕ) :
    Except Fault (Flow Sa) := do
  if payload = payloadSa then
    return .next { sa with iProposals := ← ikev2ParseSaPayload mem rlen }
  else if payload = payloadKe then
    match ← ikev2ParseKePayload mem rlen with
    | none => return .exit sa
    | some (dhGroup, data) => return .next { sa with dhGroup := dhGroup, iDhData := data }
  else if payload = payloadNonce then
    match ← ikev2ParseNoncePayload mem with
    | none => return .exit { sa with iNonce := [] }
    | some nonce => return .next { sa with iNonce := nonce }
  else if payload = payloadNotify then
    let n ← deref (← ikev2ParseNotifyPayload mem rlen)
    if n.msgType = notifyMsgNatDetectionSourceIp then
      let mismatch ← natMismatch (ikev2ComputeNatSha1 cr rx.hdr.ispi 0 sa.iaddr rx.srcPort) n.data
      return .next (sa.natDetected mismatch)
    else if n.msgType = notifyMsgNatDetectionDestinationIp then
      let mismatch ← natMismatch (ikev2ComputeNatSha1 cr rx.hdr.ispi 0 sa.raddr rx.dstPort) n.data
      return .next (sa.natDetected mismatch)
    else return .next sa
  else if payload = payloadVendor then return .next sa
  else if ← payloadIsCritical mem then
    return .exit { sa with state := .notifyAndDelete, unsupportedCp := payload }
  else return .next sa

/-- The payload loop of `ikev2_process_sa_init_req`. -/
def saInitReqLoop (rx : Rx) (payload : Byte) (mem : Bytes) (sa : Sa) : Except Fault (Sa × Bool) :=
  payloadLoop true id (saInitReqPayload cr rx) (mem.length + 1) payload mem mem.length sa

def ikev2ProcessSaInitReq (rx : Rx) (sa : Sa) : Except Fault (Sa × Bool) := do
  let sa := { sa with
    ispi := rx.hdr.ispi, swIfIndex := rx.swIfIndex, lastSaInitReqPacketData := rx.message }
  match ← saInitReqLoop cr rx rx.hdr.nextpayload rx.body sa with
  | (sa, false) => return (sa, false)
  | (sa, true) => return ({ sa with state := .saInit }, true)

/-- The loop body of `ikev2_process_sa_init_resp`, on the SA and the message id of the header. -/
def saInitRespPayload (rx : Rx) (s : Sa × BitVec 32) (payload : Byte) (mem : Bytes) (rlen : ℕ) :
    Except Fault (Flow (Sa × BitVec 32)) := do
  let (sa, msgid) := s
  if payload = payloadSa then
    match ← ikev2ParseSaPayload mem rlen with
    | [] => return .next ({ sa with rProposals := [] }, msgid)
    | rProposals => return .next ({ sa with rProposals := rProposals, state := .saInit }, msgid + 1)
  else if payload = payloadKe then
    match ← ikev2ParseKePayload mem rlen with
    | none => return .exit (sa, msgid)
    | some (dhGroup, data) => return .next ({ sa with dhGroup := dhGroup, rDhData := data }, msgid)
  else if payload = payloadNonce then
    match ← ikev2ParseNoncePayload mem with
    | none => return .exit ({ sa with rNonce := [] }, msgid)
    | some nonce => return .next ({ sa with rNonce := nonce }, msgid)
  else if payload = payloadNotify then
    let n ← deref (← ikev2ParseNotifyPayload mem rlen)
    if n.msgType = notifyMsgNatDetectionSourceIp then
      -- a responder behind NAT is only logged
      let _ ← natMismatch (ikev2ComputeNatSha1 cr rx.hdr.ispi rx.hdr.rspi sa.raddr rx.srcPort) n.data
      return .next (sa, msgid)
    else if n.msgType = notifyMsgNatDetectionDestinationIp then
      let mismatch ←
        natMismatch (ikev2ComputeNatSha1 cr rx.hdr.ispi rx.hdr.rspi sa.iaddr rx.dstPort) n.data
      return .next (sa.natDetected mismatch, msgid)
    else return .next (sa, msgid)
  else if payload = payloadVendor then return .next (sa, msgid)
  else if ← payloadIsCritical mem then
    return .exit ({ sa with state := .notifyAndDelete, unsupportedCp := payload }, msgid)
  else return .next (sa, msgid)

/-- The payload loop of `ikev2_process_sa_init_resp`. -/
def saInitRespLoop (rx : Rx) (payload : Byte) (mem : Bytes) (s : Sa × BitVec 32) :
    Except Fault ((Sa × BitVec 32) × Bool) :=
  payloadLoop true id (saInitRespPayload cr rx) (mem.length + 1) payload mem mem.length s

/-- `ikev2_process_sa_init_resp`. The message id it writes into the header is overwritten by its
    caller before it is used, or not used. -/
def ikev2ProcessSaInitResp (rx : Rx) (sa : Sa) : Except Fault Sa := do
  let sa := { sa with
    ispi := rx.hdr.ispi, rspi := rx.hdr.rspi, lastSaInitResPacketData := rx.message }
  return (← saInitRespLoop cr rx rx.hdr.nextpayload rx.body (sa, rx.hdr.msgid)).1.1

end

/-! ### IKE_AUTH -/

/-- `goto malformed` in `ikev2_process_auth_req`. -/
def authMalformed (s : Sa × ChildSa) : Sa × ChildSa := ({ s.1 with state := .deleted }, s.2)

/-- The loop body of `ikev2_process_auth_req`, on the SA and its first child SA. -/
def authPayload (s : Sa × ChildSa) (payload : Byte) (mem : Bytes) (rlen : ℕ) :
    Except Fault (Flow (Sa × ChildSa)) := do
  let (sa, child) := s
  if payload = payloadSa then
    let proposals ← ikev2ParseSaPayload mem rlen
    if sa.isInitiator then return .next (sa, { child with rProposals := proposals })
    else return .next (sa, { child with iProposals := proposals })
  else if payload = payloadIdi then
    match ← ikev2ParseIdPayload mem rlen with
    | none => return .exit (authMalformed s)
    | some id => return .next ({ sa with iId := id }, child)
  else if payload = payloadIdr then
    match ← ikev2ParseIdPayload mem rlen with
    | none => return .exit (authMalformed s)
    | some id => return .next ({ sa with rId := id }, child)
  else if payload = payloadAuth then
    let (method, data) ← ikev2ParseAuthPayload mem
    if sa.isInitiator then
      return .next ({ sa with rAuth := { sa.rAuth with method := method, data := data } }, child)
    else return .next ({ sa with iAuth := { sa.iAuth with method := method, data := data } }, child)
  else if payload = payloadNotify then
    let n ← deref (← ikev2ParseNotifyPayload mem rlen)
    if n.msgType = notifyMsgInitialContact then return .next ({ sa with initialContact := true }, child)
    else return .next (sa, child)
  else if payload = payloadVendor then return .next (sa, child)
  else if payload = payloadTsi then
    return .next (sa, { child with tsi := ← ikev2ParseTsPayload mem rlen })
  else if payload = payloadTsr then
    return .next (sa, { child with tsr := ← ikev2ParseTsPayload mem rlen })
  else if ← payloadIsCritical mem then
    return .exit ({ sa with state := .notifyAndDelete, unsupportedCp := payload }, child)
  else return .next (sa, child)

/-- The payload loop of `ikev2_process_auth_req`. -/
def authLoop (payload : Byte) (mem : Bytes) (rlen : ℤ) (s : Sa × ChildSa) :
    Except Fault ((Sa × ChildSa) × Bool) :=
  payloadLoop true authMalformed authPayload (mem.length + 1) payload mem rlen s

/-- The child SA the payloads of IKE_AUTH are read into, and those after it: a new one, or the first
    one of an initiated SA. -/
def firstChildSa (sa : Sa) : Except Fault (ChildSa × List ChildSa) :=
  if sa.isInitiator then
    match sa.childs with
    | [] => throw .nullDeref
    | child :: rest => return (child, rest)
  else return ({}, [])

/-- `ikev2_process_auth_req`. The keys are derived before the message is verified. -/
def ikev2ProcessAuthReq (cr : Crypto) (rx : Rx) (sa : Sa) :
    Except Fault (Sa × Bool) := do
  let sa ← ikev2CalcKeys cr sa
  match ← ikev2DecryptSkPayload cr sa rx with
  | (sa, none) =>
    if sa.unsupportedCp ≠ 0 then return ({ sa with state := .notifyAndDelete }, false)
    else return ({ sa with state := .deleted }, false)
  | (sa, some o) =>
    let (child, rest) ← firstChildSa sa
    -- `int current_length = dlen - p`
    let ((sa, child), res) ← authLoop o.nextpayload o.mem o.data.outLen.toInt (sa, child)
    return ({ sa with childs := child :: rest }, res)

/-! ### INFORMATIONAL -/

/-- The loop body of `ikev2_process_informational_req`. -/
def informationalPayload (sa : Sa) (payload : Byte) (mem : Bytes) (rlen : ℕ) : Except Fault (Flow Sa) := do
  if payload = payloadNotify then
    match ← ikev2ParseNotifyPayload mem rlen with
    | none => return .exit sa
    | some n =>
      if n.msgType = notifyMsgAuthenticationFailed then return .next { sa with state := .authFailed }
      else return .next sa
  else if payload = payloadDelete then
    return .next { sa with del := ← ikev2ParseDeletePayload mem rlen }
  else if payload = payloadVendor then return .next sa
  else if ← payloadIsCritical mem then return .exit { sa with unsupportedCp := payload }
  else return .next sa

/-- The payload loop of `ikev2_process_informational_req`; its own length tests are those of
    `ikev2_check_payload_length`. -/
def informationalLoop (payload : Byte) (mem : Bytes) (rlen : ℤ) (sa : Sa) : Except Fault (Sa × Bool) :=
  payloadLoop true id informationalPayload (mem.length + 1) payload mem rlen sa

def ikev2ProcessInformationalReq (cr : Crypto) (rx : Rx) (sa : Sa) :
    Except Fault (Sa × Bool) := do
  let sa := { sa with livenessRetries := 0 }
  match ← ikev2DecryptSkPayload cr sa rx with
  | (sa, none) => return (sa, false)
  -- `u32 current_length = dlen - p`
  | (sa, some o) => informationalLoop o.nextpayload o.mem o.data.outLen.toNat sa

/-! ### CREATE_CHILD_SA -/

/-- The SA and the local variables of `ikev2_process_create_child_sa_req`; `dhGroup` and `iDhData`
    are those of `sar`. -/
structure CreateChild where
  sa : Sa
  proposal : List SaProposal := []
  dhGroup : BitVec 16 := 0
  iDhData : Bytes := []
  n : Option Notify := none
  nonce : Option Bytes := none
  tsi : List Ts := []
  tsr : List Ts := []

/-- The loop body of `ikev2_process_create_child_sa_req`. -/
def createChildPayload (s : CreateChild) (payload : Byte) (mem : Bytes) (rlen : ℕ) :
    Except Fault (Flow CreateChild) := do
  if payload = payloadSa then return .next { s with proposal := ← ikev2ParseSaPayload mem rlen }
  else if payload = payloadKe then
    match ← ikev2ParseKePayload mem rlen with
    | none => return .exit s
    | some (dhGroup, data) => return .next { s with dhGroup := dhGroup, iDhData := data }
  else if payload = payloadNotify then
    let n0 ← deref (← ikev2ParseNotifyPayload mem rlen)
    if n0.msgType = notifyMsgRekeySa then return .next { s with n := some n0 }
    else return .next s
  else if payload = payloadDelete then
    return .next { s with sa := { s.sa with del := ← ikev2ParseDeletePayload mem rlen } }
  else if payload = payloadVendor then return .next s
  else if payload = payloadNonce then
    match ← ikev2ParseNoncePayload mem with
    | none => return .exit s
    | some nonce => return .next { s with nonce := some nonce }
  else if payload = payloadTsi then return .next { s with tsi := ← ikev2ParseTsPayload mem rlen }
  else if payload = payloadTsr then return .next { s with tsr := ← ikev2ParseTsPayload mem rlen }
  else if ← payloadIsCritical mem then return .exit { s with sa := { s.sa with unsupportedCp := payload } }
  else return .next s

/-- The payload loop of `ikev2_process_create_child_sa_req`, which stops at the payload type NONE
    only. -/
def createChildLoop (payload : Byte) (mem : Bytes) (rlen : ℤ) (s : CreateChild) :
    Except Fault (CreateChild × Bool) :=
  payloadLoop false id createChildPayload (mem.length + 1) payload mem rlen s

section
variable (cr : Crypto) (rnd : Rand)

def ikev2ProcessCreateChildSaRekey (sa : Sa) (s : CreateChild) (nonce : Bytes) (rekey : Rekey) :
    Sa × Rekey :=
  let rekey := { rekey with
    iProposal := s.proposal
    rProposal := ikev2SelectProposal supportedTransforms rnd.proposalSpi s.proposal protocolEsp }
  let finish (sa : Sa) (rekey : Rekey) : Sa × Rekey :=
    -- `vec_validate` never shortens the old nonce
    ({ sa with iNonce := nonce, rNonce := rnd.nonce nonce.length ++ sa.rNonce.drop nonce.length },
      { rekey with tsi := s.tsi, tsr := s.tsr })
  if s.dhGroup = 0 then finish sa rekey
  else
    match ikev2SaGetTdForType supportedTransforms rekey.rProposal transformTypeDh with
    | none => (sa, { rekey with notifyType := notifyMsgInvalidKePayload, rProposal := [] })
    | some tr =>
      if tr.transformId ≠ s.dhGroup then
        (sa, { rekey with notifyType := notifyMsgInvalidKePayload, rProposal := [] })
      else
        let sa := { sa with
          dhSharedKey := [], dhPrivateKey := [], rDhData := [], dhGroup := s.dhGroup, iDhData := s.iDhData }
        finish (ikev2GenerateDh cr rnd sa tr) { rekey with kex := true }

/-- `ikev2_process_sa_rekey`, with `sar` the SA that carries the peer's data. -/
def ikev2ProcessSaRekey (s : CreateChild) (nonce : Bytes) : SaRekey :=
  let sar : Sa := { dhGroup := s.dhGroup, iDhData := s.iDhData, iProposals := s.proposal, iNonce := nonce }
  match ikev2GenerateSaInitData cr rnd sar with
  | (_, false) => { notifyType := notifyMsgInvalidKePayload }
  | (sar, true) =>
    let rProposals := ikev2SelectProposal supportedTransforms rnd.proposalSpi sar.iProposals protocolIke
    match ikev2SaGetTdForType supportedTransforms rProposals transformTypeDh, sar.iProposals, rProposals with
    | some tr, ip :: _, rp :: _ =>
      if tr.transformId ≠ sar.dhGroup then { notifyType := notifyMsgInvalidKePayload }
      else {
        notifyType := 0, ispi := ip.spi, rspi := rp.spi, iNonce := sar.iNonce, rNonce := sar.rNonce
        dhGroup := sar.dhGroup, dhSharedKey := sar.dhSharedKey, dhPrivateKey := sar.dhPrivateKey
        iDhData := sar.iDhData, rDhData := sar.rDhData
        iProposals := sar.iProposals, rProposals := rProposals }
    | _, _, _ => { notifyType := notifyMsgInvalidKePayload }

/-- The initiator's side of `ikev2_process_create_child_sa_req`: the answer to its own rekey
    request. -/
def createChildInitiator (s : CreateChild) (proposal : SaProposal) (nonce : Bytes) :
    Except Fault (Sa × Bool) := do
  match s.sa.rekey with
  | [] => return (s.sa, false)
  | rekey :: rest =>
    match ikev2SelectProposal supportedTransforms rnd.proposalSpi s.proposal protocolEsp with
    | [] => throw .nullDeref
    | sel :: _ =>
      let rekey := { rekey with
        notifyType := 0, protocolId := proposal.protocolId
        iProposal := [{ sel with spi := rekey.spi.setWidth 64 }], rProposal := s.proposal
        tsi := s.tsi, tsr := s.tsr }
      return ({ s.sa with rekey := rekey :: rest, rNonce := nonce }, true)

/-- The responder's side: rekey a child SA, rekey the IKE SA, or create a child SA. -/
def createChildResponder (s : CreateChild) (proposal : SaProposal) (nonce : Bytes) :
    Except Fault (Sa × Bool) := do
  match s.n with
  | some n =>
    match ikev2SaGetChild s.sa n.spi n.protocolId true with
    | none => return (s.sa, false)
    | some _ =>
      let rekey : Rekey := { protocolId := n.protocolId, spi := n.spi }
      if s.sa.oldRemoteIdPresent then
        let rekey := { rekey with notifyType := notifyMsgTemporaryFailure }
        return ({ s.sa with rekey := s.sa.rekey ++ [rekey] }, true)
      let (sa, rekey) := ikev2ProcessCreateChildSaRekey cr rnd s.sa s nonce rekey
      return ({ sa with rekey := sa.rekey ++ [rekey] }, true)
  | none =>
    if proposal.protocolId = protocolIke then
      if s.tsi ≠ [] ∨ s.tsr ≠ [] then return (s.sa, false)
      let saRekey := ikev2ProcessSaRekey cr rnd s nonce
      return ({ s.sa with saRekey := s.sa.saRekey ++ [saRekey] }, true)
    else
      let (sa, rekey) := ikev2ProcessCreateChildSaRekey cr rnd s.sa s nonce {}
      return ({ sa with newChild := sa.newChild ++ [rekey] }, true)

def ikev2ProcessCreateChildSaReq (rx : Rx) (sa : Sa) : Except Fault (Sa × Bool) := do
  match ← ikev2DecryptSkPayload cr sa rx with
  | (sa, none) => return (sa, false)
  | (sa, some o) =>
    match ← createChildLoop o.nextpayload o.mem o.data.outLen.toInt { sa := sa } with
    | (s, false) => return (s.sa, false)
    | (s, true) =>
      match s.proposal, s.nonce with
      | proposal :: _, some nonce =>
        if proposal.protocolId ≠ protocolEsp ∧ proposal.protocolId ≠ protocolIke then return (s.sa, false)
        if s.sa.isInitiator then createChildInitiator rnd s proposal nonce
        else createChildResponder cr rnd s proposal nonce
      | _, _ => return (s.sa, false)

end

end Vpp.Ikev2
