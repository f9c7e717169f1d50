import Vpp.Ikev2.Generate
import Vpp.Ikev2.Process
import Vpp.Ikev2.Tunnel

/-! What `ikev2_node_internal` does to one IKE SA when a message for it arrives.

    The SA is taken out of the worker's tables here and put back in `Node`; what concerns the tables is
    part of the result. -/

namespace Vpp.Ikev2
open Vpp.Schemes Vpp.Vppinfra

/-! ### The message-id window -/

/-- The three answers of `ikev2_retransmit_resp`: 0, the length of the stored response, `~0`. -/
inductive Retransmit where
  | process
  | resend (packet : Bytes)
  | ignore
  deriving DecidableEq

/-- A new request: later than the last one, or the first one when `last_msg_id` is the marker `~0`. -/
def Sa.isNewReq (sa : Sa) (msgId : BitVec 32) : Prop := sa.lastMsgId < msgId ∨ sa.lastMsgId = ~~~0
deriving Decidable

/-- The response that is sent again: the stored header, and as many bytes behind it as the stored
    header says. -/
def storedResponse (stored : Bytes) : Except Fault Bytes :=
  if stored = [] then throw .nullDeref
  else do
    let tmp := IkeHeader.ofBytes (← slice stored 0 28)
    let len ← lengthSub tmp.length.toNat 28
    return tmp.bytes ++ (← slice stored 28 len)

def ikev2RetransmitResp (sa : Sa) (hdr : IkeHeader) : Except Fault (Sa × Retransmit) := do
  if hdr.isResponse then return (sa, .process)
  if sa.isNewReq hdr.msgid then return ({ sa with lastMsgId := hdr.msgid }, .process)
  if hdr.msgid = sa.lastMsgId then return (sa, .resend (← storedResponse sa.lastResPacketData))
  return (sa, .ignore)

/-! ### The exchanges -/

/-- A request to the main thread. `addTunnel` is given together with the child SA it is for. -/
inductive Rpc where
  | addTunnel (child : ChildSa) (a : AddTunnelArgs)
  | delTunnel (a : DelTunnelArgs)
  | delSaInit (ispi : BitVec 64)
  deriving DecidableEq

/-- What handling a message does: the SA afterwards, the message sent, requests to the main thread,
    whether SAs with the same identities are to be deleted, and the SA that a rekey creates. -/
structure Outcome where
  sa : Sa
  reply : Option Bytes := none
  rpcs : List Rpc := []
  initialContact : Bool := false
  rekeyed : Option Sa := none

/-- The header of a response. -/
def IkeHeader.asResponse (h : IkeHeader) : IkeHeader := { h with flags := hdrFlagResponse }

section
variable (env : Env) (km : Ikev2Main) (saIndex : BitVec 32) (rx : Rx)

/-- The tunnel of the child SA at `i`. -/
def createTunnelAt (sa : Sa) (i : ℕ) (isRekey kex : Bool) : Except Fault (Sa × List Rpc) := do
  let child ← deref sa.childs[i]?
  let (sa, child, a) ← ikev2CreateTunnelInterface env sa child saIndex (BitVec.ofNat 32 i) isRekey kex
  return ({ sa with childs := sa.childs.set i child }, (a.map (Rpc.addTunnel child)).toList)

/-- IKE_AUTH after authentication: selectors and the first child SA. -/
def authenticated (sa : Sa) : Except Fault (Sa × List Rpc) := do
  if sa.state ≠ .authenticated then return (sa, [])
  let sa ← ikev2SaMatchTs km { sa with initialContact := false }
  if sa.state = .tsUnacceptable then return (sa, [])
  createTunnelAt env saIndex sa 0 false false

/-- IKE_AUTH up to the point where its outcome is known. -/
def authenticate (sa : Sa) : Except Fault Sa := do
  match ← ikev2ProcessAuthReq env.cr rx { sa with dstPort := rx.srcPort } with
  | (sa, true) => ikev2SaAuth env km sa
  | (sa, false) => return sa

/-- An IKE_AUTH message that passed `ikev2_retransmit_resp`. -/
def handleIkeAuth (sa : Sa) : Except Fault Outcome := do
  let sa ← authenticate env km rx sa
  let contact := decide (sa.state = .authenticated) && sa.initialContact
  let (sa, rpcs) ← authenticated env km saIndex sa
  if sa.isInitiator then
    return {
      sa := { sa with lastMsgId := ~~~0 }, rpcs := rpcs ++ [.delSaInit sa.ispi], initialContact := contact }
  let (sa, reply) ← generateIkeAuth env rx rx.hdr.asResponse sa
  return { sa := sa, reply := reply, rpcs := rpcs, initialContact := contact }

/-- The SPI with which the responder answers the delete of a child SA: the one it chose itself. -/
def deletedSpi (sa : Sa) (child : ChildSa) : Except Fault (BitVec 32) :=
  if sa.isInitiator then return 0
  else do
    let rp ← deref child.rProposals.head?
    return rp.spi.setWidth 32

/-- The child SAs named by a delete payload: the SA without them, the deletes to answer with, the
    tunnels to remove. -/
def deleteChilds : List Delete → Sa → Except Fault (Sa × List Delete × List Rpc)
  | [], sa => return (sa, [], [])
  | d :: ds, sa => do
    match ikev2SaGetChild sa d.spi d.protocolId (!sa.isInitiator) with
    | none => deleteChilds ds sa
    | some i =>
      let child ← deref sa.childs[i]?
      let spi ← deletedSpi sa child
      let (sa', resp, rpcs) ← deleteChilds ds { sa with childs := vecDel1 sa.childs i }
      return (sa', ⟨d.protocolId, spi⟩ :: resp, .delTunnel (ikev2DeleteTunnelInterface sa child) :: rpcs)

/-- The deletes of an INFORMATIONAL message, unless they name the IKE SA itself. -/
def handleDelete (sa : Sa) : Except Fault (Sa × List Rpc) := do
  match sa.del with
  | [] => return (sa, [])
  | d :: _ =>
    if d.protocolId = protocolIke then return (sa, [])
    let (sa', resp, rpcs) ← deleteChilds sa.del sa
    return ({ sa' with del := if sa.isInitiator then sa.del else resp }, rpcs)

/-- An INFORMATIONAL message that passed `ikev2_retransmit_resp`. -/
def handleInformational (sa : Sa) : Except Fault Outcome := do
  match ← ikev2ProcessInformationalReq env.cr rx sa with
  | (sa, false) => return { sa := sa }
  | (sa, true) =>
    let (sa, rpcs) ← handleDelete sa
    if rx.hdr.isResponse then return { sa := sa, rpcs := rpcs }
    let (sa, reply) ← generateInformational env rx rx.hdr.asResponse sa
    return { sa := sa, reply := reply, rpcs := rpcs }

/-- `ikev2_complete_sa_rekey`: the new SA, with the old index and child SAs, and the old one. -/
def ikev2CompleteSaRekey (sa : Sa) (saRekey : SaRekey) : Except Fault (Sa × Sa) := do
  let saNew := { sa with
    del := [], rekey := [], newChild := [], saRekey := []
    lastSaInitReqPacketData := [], lastSaInitResPacketData := []
    lastMsgId := ~~~0, lastResPacketData := [], lastInitMsgId := 0
    ispi := saRekey.ispi, rspi := saRekey.rspi, iNonce := saRekey.iNonce, rNonce := saRekey.rNonce
    dhGroup := saRekey.dhGroup, dhSharedKey := saRekey.dhSharedKey
    dhPrivateKey := saRekey.dhPrivateKey, iDhData := saRekey.iDhData, rDhData := saRekey.rDhData
    iProposals := saRekey.iProposals, rProposals := saRekey.rProposals
    skD := [], skAi := [], skAr := [], skEi := [], skEr := [], skPi := [], skPr := [] }
  let saNew ← ikev2CalcKeysRekey env.cr saNew sa
  let saOld := { sa with
    isTunItfSet := false, tunItf := ~~~0, currentRemoteIdMask := 0, oldRemoteId := 0
    oldRemoteIdPresent := false, childs := [], swIfIndex := ~~~0 }
  return (saNew, saOld)

/-- The answer to a CREATE_CHILD_SA request, or nothing after a response. -/
def answerCreateChild (sa : Sa) (rpcs : List Rpc) (rekeyed : Option Sa) : Except Fault Outcome := do
  let (sa, reply) ← generateCreateChild env rx rx.hdr.asResponse sa
  return { sa := sa, reply := reply, rpcs := rpcs, rekeyed := rekeyed }

/-- The first pending rekey of a child SA: the child SAs are replaced by the new one. -/
def rekeyChild (sa : Sa) (rekey : Rekey) : Except Fault (Sa × List Rpc) := do
  if rekey.notifyType ≠ 0 ∨ rekey.protocolId = protocolIke then return (sa, [])
  let child : ChildSa := {
    rProposals := rekey.rProposal, iProposals := rekey.iProposal, tsi := rekey.tsi, tsr := rekey.tsr }
  createTunnelAt env saIndex { sa with childs := [child] } 0 true rekey.kex

/-- The first pending new child SA. -/
def addChild (sa : Sa) (rekey : Rekey) : Except Fault (Sa × List Rpc) :=
  let child : ChildSa := {
    rProposals := rekey.rProposal, iProposals := rekey.iProposal, tsi := rekey.tsi, tsr := rekey.tsr }
  createTunnelAt env saIndex { sa with childs := sa.childs ++ [child] } sa.childs.length false rekey.kex

/-- The first pending rekey of the IKE SA itself. -/
def rekeySa (sa : Sa) (saRekey : SaRekey) : Except Fault (Sa × Option Sa) := do
  if saRekey.notifyType ≠ 0 then return (sa, none)
  let (saNew, saOld) ← ikev2CompleteSaRekey env sa saRekey
  return (saOld, some saNew)

/-- A CREATE_CHILD_SA message that passed `ikev2_retransmit_resp`. -/
def handleCreateChild (sa : Sa) : Except Fault Outcome := do
  match ← ikev2ProcessCreateChildSaReq env.cr env.rnd rx sa with
  | (sa, false) => return { sa := sa }
  | (sa, true) =>
    match sa.rekey, sa.newChild, sa.saRekey with
    | rekey :: _, _, _ =>
      let (sa, rpcs) ← rekeyChild env saIndex sa rekey
      if rx.hdr.isResponse then return { sa := { sa with rekey := [] }, rpcs := rpcs }
      answerCreateChild env rx sa rpcs none
    | [], rekey :: _, _ =>
      let (sa, rpcs) ← addChild env saIndex sa rekey
      if rx.hdr.isResponse then return { sa := sa, rpcs := rpcs }
      answerCreateChild env rx sa rpcs none
    | [], [], saRekey :: _ =>
      let (sa, rekeyed) ← rekeySa env sa saRekey
      if rx.hdr.isResponse then return { sa := { sa with saRekey := [] }, rekeyed := rekeyed }
      answerCreateChild env rx sa [] rekeyed
    | [], [], [] => return { sa := sa }

/-- A message of one of the three exchanges on its SA, after the message-id window. -/
def handleMessage (sa : Sa) : Except Fault Outcome :=
  if rx.hdr.exchange = exchangeIkeAuth then handleIkeAuth env km saIndex rx sa
  else if rx.hdr.exchange = exchangeInformational then handleInformational env rx sa
  else handleCreateChild env saIndex rx sa

/-- A message of one of the three exchanges on its SA. -/
def receiveOnSa (sa : Sa) : Except Fault Outcome := do
  match ← ikev2RetransmitResp sa rx.hdr with
  | (sa, .process) => handleMessage env km saIndex rx sa
  | (sa, .resend packet) => return { sa := sa, reply := some packet }
  | (sa, .ignore) => return { sa := sa }

/-- The SA ends up in one of the two states in which the node deletes it. -/
def Sa.isDead (sa : Sa) : Prop := sa.state = .deleted ∨ sa.state = .notifyAndDelete
deriving Decidable

/-! ### IKE_SA_INIT -/

/-- A request for a new SA: the SA on the stack and the response. -/
def receiveSaInitReq : Except Fault (Sa × Option Bytes) := do
  let sa : Sa := { iaddr := rx.src, raddr := rx.dst, dstPort := rx.srcPort }
  let (sa, _) ← ikev2ProcessSaInitReq env.cr rx sa
  if sa.state = .saInit then
    let sa := { sa with
      rProposals := ikev2SelectProposal supportedTransforms env.rnd.proposalSpi sa.iProposals protocolIke }
    generateSaInit env rx rx.hdr.asResponse (ikev2GenerateSaInitData env.cr env.rnd sa).1
  else if sa.state = .notifyAndDelete then generateSaInit env rx rx.hdr.asResponse sa
  else return (sa, none)

def ikev2CompleteSaData (sa sai : Sa) : Sa :=
  let sa := { sa with
    iNonce := sai.iNonce, iDhData := sai.iDhData, dhPrivateKey := sai.dhPrivateKey
    iaddr := sai.iaddr, raddr := sai.raddr, isInitiator := sai.isInitiator
    iId := sai.iId, rId := sai.rId, profileIndex := sai.profileIndex
    tunItf := sai.tunItf, isTunItfSet := sai.isTunItfSet
    nattState := if sai.nattState = .disabled then .disabled else sa.nattState
    iAuth := sai.iAuth, lastSaInitReqPacketData := sai.lastSaInitReqPacketData
    lastInitMsgId := sai.lastInitMsgId, childs := sai.childs, udpEncap := sai.udpEncap
    ipsecOverUdpPort := sai.ipsecOverUdpPort, dstPort := sai.dstPort, swIfIndex := sai.swIfIndex }
  if sa.dhGroup = dhTypeNone then sa
  else
    match findDhGroup supportedTransforms sa.dhGroup with
    | none => { sa with dhGroup := dhTypeNone }
    | some t => ikev2CompleteDh env.cr sa t

/-- A response to an SA initiated here: complete it and send the IKE_AUTH request. -/
def completeInitiated (sa sai : Sa) : Except Fault (Sa × Option Bytes) := do
  let sa ← ikev2CalcKeys env.cr (ikev2CompleteSaData env sa sai)
  let sa ← ikev2SaAuthInit env km sa
  let hdr := { rx.hdr with exchange := exchangeIkeAuth, flags := hdrFlagInitiator, msgid := sai.lastInitMsgId }
  generateIkeAuth env rx hdr { sa with lastInitMsgId := sai.lastInitMsgId + 1 }

/-- An IKE_SA_INIT response: the SA on the stack, the IKE_AUTH request, and whether a pending SA was
    used up. -/
def receiveSaInitResp : Except Fault (Sa × Option Bytes × Bool) := do
  let sa ← ikev2ProcessSaInitResp env.cr rx { iaddr := rx.dst, raddr := rx.src }
  if sa.state ≠ .saInit then return (sa, none, false)
  match km.sais.find? fun sai => sai.ispi = sa.ispi with
  | none => return (sa, none, false)
  | some sai =>
    if sai.initResponseReceived then return ({ sa with state := .unknown }, none, false)
    let (sa, request) ← completeInitiated env km rx sa sai
    return (sa, request, true)

end

end Vpp.Ikev2
