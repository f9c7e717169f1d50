import Vpp.Ikev2.Chain
import Vpp.Ikev2.Decrypt
import Vpp.Vppinfra.Vec

/-! `ikev2_generate_message`: building a message in the buffer of the received one.

    Every message except IKE_SA_INIT is kept in `last_res_packet_data` once it is complete. -/

namespace Vpp.Ikev2
open Vpp.Schemes Vpp.Vppinfra

/-! ### The payloads -/

def ikev2AddInvalidKePayload (sa : Sa) (c : PayloadChain) : Except Fault PayloadChain := do
  let trDh ← deref (ikev2SaGetTdForType supportedTransforms sa.rProposals transformTypeDh)
  return ikev2PayloadAddNotify c notifyMsgInvalidKePayload (toBe 2 trDh.transformId.toNat)

def ikev2AddNotifyPayload (sa : Sa) (c : PayloadChain) (notifyType : BitVec 16) :
    Except Fault PayloadChain :=
  if notifyType = notifyMsgInvalidKePayload then ikev2AddInvalidKePayload sa c
  else return ikev2PayloadAddNotify c notifyType []

def ikev2AddCreateChildResp (sa : Sa) (rekey : Rekey) (c : PayloadChain) : Except Fault PayloadChain :=
  if rekey.notifyType ≠ 0 then ikev2AddNotifyPayload sa c rekey.notifyType
  else
    let c := ikev2PayloadAddNonce (ikev2PayloadAddSa c rekey.rProposal false) sa.rNonce
    let c := if rekey.kex then ikev2PayloadAddKe c sa.dhGroup sa.rDhData else c
    return ikev2PayloadAddTs (ikev2PayloadAddTs c rekey.tsi payloadTsi) rekey.tsr payloadTsr

/-- The notify with the type of a critical payload that is not understood. -/
def addUnsupportedCp (sa : Sa) (c : PayloadChain) : PayloadChain :=
  ikev2PayloadAddNotify c notifyMsgUnsupportedCriticalPayload [sa.unsupportedCp]

/-- The answer to an IKE_SA_INIT request. The Boolean says that the header gets the responder SPI. -/
def saInitChain (cr : Crypto) (rx : Rx) (sa : Sa) : Except Fault (Sa × PayloadChain × Bool) := do
  if sa.rProposals = [] then
    return ({ sa with state := .notifyAndDelete },
      ikev2PayloadAddNotify {} notifyMsgNoProposalChosen [], false)
  else if sa.dhGroup = dhTypeNone then
    return ({ sa with state := .notifyAndDelete }, ← ikev2AddInvalidKePayload sa {}, false)
  else if sa.state = .notifyAndDelete then return (sa, addUnsupportedCp sa {}, false)
  else
    let c := ikev2PayloadAddNonce
      (ikev2PayloadAddKe (ikev2PayloadAddSa {} sa.rProposals false) sa.dhGroup sa.rDhData) sa.rNonce
    let c := ikev2PayloadAddNotify c notifyMsgNatDetectionSourceIp
      (ikev2ComputeNatSha1 cr sa.ispi sa.rspi sa.raddr rx.dstPort)
    let c := ikev2PayloadAddNotify c notifyMsgNatDetectionDestinationIp
      (ikev2ComputeNatSha1 cr sa.ispi sa.rspi sa.iaddr rx.srcPort)
    return (sa, c, true)

/-- The payloads of an IKE_AUTH message, by the state of the SA; `none` is `goto done` without a
    message. -/
def authChain (sa : Sa) : Except Fault (Sa × Option PayloadChain) := do
  match sa.state with
  | .authenticated =>
    let child ← deref sa.childs.head?
    let c := ikev2PayloadAddAuth (ikev2PayloadAddId {} sa.rId payloadIdr) sa.rAuth
    let c := ikev2PayloadAddSa c child.rProposals false
    return (sa, some (ikev2PayloadAddTs (ikev2PayloadAddTs c child.tsi payloadTsi) child.tsr payloadTsr))
  | .authFailed =>
    return ({ sa with state := .notifyAndDelete },
      some (ikev2PayloadAddNotify {} notifyMsgAuthenticationFailed []))
  | .tsUnacceptable =>
    let c := ikev2PayloadAddNotify {} notifyMsgTsUnacceptable []
    return (sa, some (ikev2PayloadAddAuth (ikev2PayloadAddId c sa.rId payloadIdr) sa.rAuth))
  | .noProposalChosen =>
    let child ← deref sa.childs.head?
    let c := ikev2PayloadAddNotify {} notifyMsgNoProposalChosen []
    let c := ikev2PayloadAddAuth (ikev2PayloadAddId c sa.rId payloadIdr) sa.rAuth
    return (sa, some (ikev2PayloadAddTs (ikev2PayloadAddTs c child.tsi payloadTsi) child.tsr payloadTsr))
  | .notifyAndDelete => return (sa, some (addUnsupportedCp sa {}))
  | .saInit =>
    let child ← deref sa.childs.head?
    let c := ikev2PayloadAddId {} sa.iId payloadIdi
    let c := if sa.rId.type ≠ 0 then ikev2PayloadAddId c sa.rId payloadIdr else c
    let c := ikev2PayloadAddSa (ikev2PayloadAddAuth c sa.iAuth) child.iProposals false
    let c := ikev2PayloadAddTs (ikev2PayloadAddTs c child.tsi payloadTsi) child.tsr payloadTsr
    return (sa, some (ikev2PayloadAddNotify c notifyMsgInitialContact []))
  | .unknown | .deleted => return ({ sa with state := .deleted }, none)

/-- The payloads of an INFORMATIONAL message; `none` is `goto done` without a message. -/
def informationalChain (isRequest : Bool) (sa : Sa) : Sa × Option PayloadChain :=
  match sa.del with
  | d :: ds =>
    if d.protocolId = protocolIke then
      ({ sa with state := .notifyAndDelete, del := [] },
        some (if isRequest then ikev2PayloadAddDelete {} (d :: ds) else {}))
    else ({ sa with del := [] }, some (ikev2PayloadAddDelete {} (d :: ds)))
  | [] =>
    if sa.state = .authFailed then ({ sa with state := .deleted }, none)
    else if sa.unsupportedCp ≠ 0 then ({ sa with unsupportedCp := 0 }, some (addUnsupportedCp sa {}))
    else (sa, some {})

/-- The payloads of a CREATE_CHILD_SA message. On an initiated SA it is always the request to rekey the
    first child SA, here without proposals of the caller. -/
def createChildChain (sa : Sa) : Except Fault (Sa × PayloadChain) := do
  if sa.isInitiator then
    let child ← deref sa.childs.head?
    let ip ← deref child.iProposals.head?
    let spi := ip.spi.setWidth 32
    let c := ikev2PayloadAddNonce (ikev2PayloadAddSa {} [] false) sa.iNonce
    let c := ikev2PayloadAddTs (ikev2PayloadAddTs c child.tsi payloadTsi) child.tsr payloadTsr
    return (sa, ikev2PayloadAddNotify2 c notifyMsgRekeySa (toBe 4 spi.toNat)
      (some ⟨0, protocolEsp, spi, []⟩))
  match sa.rekey, sa.newChild, sa.saRekey with
  | rekey :: _, _, _ =>
    return ({ sa with rekey := vecDel1 sa.rekey 0 }, ← ikev2AddCreateChildResp sa rekey {})
  | [], rekey :: _, _ =>
    return ({ sa with newChild := vecDel1 sa.newChild 0 }, ← ikev2AddCreateChildResp sa rekey {})
  | [], [], saRekey :: _ =>
    let sa' := { sa with saRekey := vecDel1 sa.saRekey 0 }
    if saRekey.notifyType ≠ 0 then return (sa', ← ikev2AddNotifyPayload sa {} saRekey.notifyType)
    let c := ikev2PayloadAddNonce (ikev2PayloadAddSa {} saRekey.rProposals true) saRekey.rNonce
    return (sa', ikev2PayloadAddKe c saRekey.dhGroup saRekey.rDhData)
  | [], [], [] =>
    if sa.unsupportedCp ≠ 0 then return ({ sa with unsupportedCp := 0 }, addUnsupportedCp sa {})
    return (sa, ikev2PayloadAddNotify {} notifyMsgNoAdditionalSas [])

/-! ### The message -/

/-- The header `ikev2_generate_message` completes. -/
def IkeHeader.finish (h : IkeHeader) (isInitiator : Bool) (nextpayload : Byte) (tlen : ℕ) : IkeHeader :=
  { h with
    version := ikeVersion2, nextpayload := nextpayload, length := BitVec.ofNat 32 tlen
    flags := if isInitiator then h.flags ||| hdrFlagInitiator else h.flags }

/-- The buffer behind the IKE header after the SK payload is written into it; `none` without a key. -/
def sealSk (env : Env) (sa : Sa) (hdr : IkeHeader) (trEncr : TransformData) (trInteg : Option TransformData)
    (c : PayloadChain) (plen : ℕ) (room : Bytes) : Except Fault (Option Bytes) := do
  let key := if sa.isInitiator then sa.skEi else sa.skEr
  if key = [] then return none
  let ph := [c.firstPayloadType, 0] ++ toBe 2 plen
  let room := writeAt room 0 ph
  if trEncr.transformId = encrTypeAesGcm16 then
    let iv := env.rnd.iv gcmIvSize
    let nonce := key.drop (key.length - gcmSaltSize) ++ iv
    let aad := hdr.bytes ++ ph
    let room := writeAt room 4 (iv ++ env.cr.encryptAead trEncr key nonce aad c.data)
    return some (writeAt room (plen - gcmIcvSize) (env.cr.aeadTag trEncr key nonce aad c.data))
  else
    let iv := env.rnd.iv trEncr.blockSize
    let room := writeAt room 4 (iv ++ env.cr.encrypt trEncr key iv c.data)
    let trInteg ← deref trInteg
    let integ := env.cr.integr trInteg (if sa.isInitiator then sa.skAi else sa.skAr)
      (hdr.bytes ++ room.take (plen - trInteg.keyTrunc))
    return some (writeAt room (plen - trInteg.keyTrunc) (integ.take trInteg.keyTrunc))

/-- The part of `ikev2_generate_message` after the payloads are collected, for an encrypted message. -/
def sealMessage (env : Env) (rx : Rx) (hdr : IkeHeader) (sa : Sa) (c : PayloadChain) :
    Except Fault (Sa × Option Bytes) := do
  let trEncr ← deref (ikev2SaGetTdForType supportedTransforms sa.rProposals transformTypeEncr)
  let trInteg := ikev2SaGetTdForType supportedTransforms sa.rProposals transformTypeInteg
  let c := ikev2PayloadChainAddPadding c trEncr.blockSize
  let ivLen := if trEncr.transformId = encrTypeAesGcm16 then gcmIvSize else trEncr.blockSize
  -- a `u16`
  let plen := (4 + (c.data.length + ivLen) + (trInteg.map (·.keyTrunc)).getD gcmIcvSize) % 2 ^ 16
  if plen > rx.room.length then return (sa, none)
  let hdr := hdr.finish sa.isInitiator payloadSk (28 + plen)
  match ← sealSk env sa hdr trEncr trInteg c plen rx.room with
  | none => return (sa, none)
  | some room =>
    let packet := hdr.bytes ++ room.take plen
    return ({ sa with lastResPacketData := packet }, some packet)

/-- `ikev2_generate_message` for an IKE_SA_INIT response. -/
def generateSaInit (env : Env) (rx : Rx) (hdr : IkeHeader) (sa : Sa) : Except Fault (Sa × Option Bytes) := do
  let (sa, c, setRspi) ← saInitChain env.cr rx sa
  let hdr := if setRspi then { hdr with rspi := sa.rspi } else hdr
  if c.data.length > rx.room.length then return (sa, none)
  let packet := (hdr.finish sa.isInitiator c.firstPayloadType (28 + c.data.length)).bytes ++ c.data
  return ({ sa with lastSaInitResPacketData := packet }, some packet)

/-- `ikev2_generate_message` for the other exchanges. -/
def generateIkeAuth (env : Env) (rx : Rx) (hdr : IkeHeader) (sa : Sa) : Except Fault (Sa × Option Bytes) := do
  match ← authChain sa with
  | (sa, none) => return (sa, none)
  | (sa, some c) => sealMessage env rx hdr sa c

def generateInformational (env : Env) (rx : Rx) (hdr : IkeHeader) (sa : Sa) :
    Except Fault (Sa × Option Bytes) := do
  match informationalChain hdr.isRequest sa with
  | (sa, none) => return (sa, none)
  | (sa, some c) => sealMessage env rx hdr sa c

def generateCreateChild (env : Env) (rx : Rx) (hdr : IkeHeader) (sa : Sa) :
    Except Fault (Sa × Option Bytes) := do
  let (sa, c) ← createChildChain sa
  sealMessage env rx hdr sa c

end Vpp.Ikev2
