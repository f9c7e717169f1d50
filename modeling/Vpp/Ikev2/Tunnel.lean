import Vpp.Ikev2.Auth

/-! `ikev2_create_tunnel_interface`: what a negotiated child SA hands over to the IPsec layer.

    The algorithms, the ESN flag and the outbound SPI are read from the proposals of the other side:
    on the responder from the first proposal the initiator offered, while the keys are derived for the
    proposal that was chosen. -/

namespace Vpp.Ikev2
open Vpp.Schemes

/-- `ipsec_crypto_alg_t`, the values this function uses. -/
inductive IpsecCryptoAlg where
  | aesCbc128 | aesCbc192 | aesCbc256 | aesGcm128 | aesGcm192 | aesGcm256
  deriving DecidableEq

/-- `ipsec_integ_alg_t`, the values this function uses. -/
inductive IpsecIntegAlg where
  | none | sha196 | sha256128 | sha384192 | sha512256
  deriving DecidableEq

def IpsecCryptoAlg.isAead : IpsecCryptoAlg → Bool
  | .aesCbc128 | .aesCbc192 | .aesCbc256 => false
  | .aesGcm128 | .aesGcm192 | .aesGcm256 => true

/-- The arguments of `ikev2_add_tunnel_from_main`; `IPSEC_SA_FLAG_USE_ANTI_REPLAY` is always set. A
    salt that is not set is empty. -/
structure AddTunnelArgs where
  localIp : IpAddress
  remoteIp : IpAddress
  localSpi : BitVec 32
  remoteSpi : BitVec 32
  isTunnel : Bool
  udpEncap : Bool
  useEsn : Bool
  encrType : IpsecCryptoAlg
  integType : IpsecIntegAlg
  locCkey : Bytes
  remCkey : Bytes
  locIkey : Bytes
  remIkey : Bytes
  saltLocal : Bytes
  saltRemote : Bytes
  isRekey : Bool
  localSaId : BitVec 32
  remoteSaId : BitVec 32
  oldRemoteSaId : BitVec 32
  swIfIndex : BitVec 32
  ipsecOverUdpPort : BitVec 16
  srcPort : BitVec 16
  dstPort : BitVec 16
  deriving DecidableEq

/-- The arguments of `ikev2_del_tunnel_from_main`. -/
structure DelTunnelArgs where
  localIp : IpAddress
  remoteIp : IpAddress
  remoteSaId : BitVec 32
  localSaId : BitVec 32
  swIfIndex : BitVec 32
  deriving DecidableEq

/-- The cipher a table entry is installed as. -/
def ipsecEncr (tr : TransformData) : Option IpsecCryptoAlg :=
  if tr.transformId = encrTypeAesCbc then
    match tr.keyLen with
    | 16 => some .aesCbc128
    | 24 => some .aesCbc192
    | 32 => some .aesCbc256
    | _ => none
  else if tr.transformId = encrTypeAesGcm16 then
    match tr.keyLen with
    | 16 => some .aesGcm128
    | 24 => some .aesGcm192
    | 32 => some .aesGcm256
    | _ => none
  else none

/-- The integrity algorithm a table entry is installed as. -/
def ipsecInteg (tr : TransformData) : Option IpsecIntegAlg :=
  if tr.transformId = integTypeHmacSha2256128 then some .sha256128
  else if tr.transformId = integTypeHmacSha2384192 then some .sha384192
  else if tr.transformId = integTypeHmacSha2512256 then some .sha512256
  else if tr.transformId = integTypeHmacSha196 then some .sha196
  else none

/-- The cipher and integrity algorithm the function makes of the first proposal of a vector; `none`
    is NO_PROPOSAL_CHOSEN. A combined-mode cipher takes no integrity algorithm, offered or not. -/
def tunnelAlgs (proposals : List SaProposal) : Option (IpsecCryptoAlg × IpsecIntegAlg) :=
  match (ikev2SaGetTdForType supportedTransforms proposals transformTypeEncr).bind ipsecEncr with
  | none => none
  | some encr =>
    if encr.isAead then some (encr, .none)
    else
      match (ikev2SaGetTdForType supportedTransforms proposals transformTypeInteg).bind ipsecInteg with
      | none => none
      | some integ => some (encr, integ)

/-- `tr && tr->esn_type`. -/
def tunnelEsn (proposals : List SaProposal) : Bool :=
  match ikev2SaGetTdForType supportedTransforms proposals transformTypeEsn with
  | none => false
  | some tr => decide (tr.transformId ≠ 0)

/-- `ikev2_mk_local_sa_id` and `ikev2_mk_remote_sa_id`. -/
def ikev2MkLocalSaId (sai ci ti : BitVec 32) : BitVec 32 := 0x80000000 ||| (ti <<< 24) ||| (sai <<< 12) ||| ci
def ikev2MkRemoteSaId (sai ci ti : BitVec 32) : BitVec 32 := 0xc0000000 ||| (ti <<< 24) ||| (sai <<< 12) ||| ci

/-- `ikev2_natt_active`. -/
def Sa.nattActive (sa : Sa) : Bool := decide (sa.nattState = .active)

/-- The remote SA id of a rekeyed child SA: the old id stays in use for a while, so the two alternate
    in the bit `0x800`. Returns the SA, the new and the old id. -/
def rekeyRemoteSaId (sa : Sa) (remoteSaId : BitVec 32) (isRekey : Bool) : Sa × BitVec 32 × BitVec 32 :=
  if isRekey then
    if sa.currentRemoteIdMask ≠ 0 then
      ({ sa with
          oldRemoteId := remoteSaId ||| 0x800, currentRemoteIdMask := 0, oldRemoteIdPresent := true },
        remoteSaId, remoteSaId ||| 0x800)
    else
      ({ sa with oldRemoteId := remoteSaId, currentRemoteIdMask := 0x800, oldRemoteIdPresent := true },
        remoteSaId ||| 0x800, remoteSaId)
  else (sa, remoteSaId, 0)

/-- The key material of a child SA, for the local and the remote direction. -/
def AddTunnelArgs.setKeys (a : AddTunnelArgs) (isInitiator isAead : Bool) (child : ChildSa) : AddTunnelArgs :=
  if isInitiator then
    { a with
      locIkey := child.skAi, remIkey := child.skAr, locCkey := child.skEi, remCkey := child.skEr
      saltRemote := if isAead then child.saltEr else [], saltLocal := if isAead then child.saltEi else [] }
  else
    { a with
      locIkey := child.skAr, remIkey := child.skAi, locCkey := child.skEr, remCkey := child.skEi
      saltRemote := if isAead then child.saltEi else [], saltLocal := if isAead then child.saltEr else [] }

/-- `ikev2_create_tunnel_interface`: the SA, the child SA and the request to the main thread, if there
    is one. -/
def ikev2CreateTunnelInterface (env : Env) (sa : Sa) (child : ChildSa) (saIndex childIndex : BitVec 32)
    (isRekey kex : Bool) : Except Fault (Sa × ChildSa × Option AddTunnelArgs) := do
  match child.rProposals with
  | [] => return ({ sa with state := .noProposalChosen }, child, none)
  | rp :: _ =>
    let ip ← deref child.iProposals.head?
    let proposals := if sa.isInitiator then child.rProposals else child.iProposals
    match tunnelAlgs proposals with
    | none => return ({ sa with state := .noProposalChosen }, child, none)
    | some (encrType, integType) =>
      let child ← ikev2CalcChildKeys env.cr sa child kex
      let localSaId := ikev2MkLocalSaId saIndex childIndex env.threadIndex
      let (sa, remoteSaId, oldRemoteSaId) :=
        rekeyRemoteSaId sa (ikev2MkRemoteSaId saIndex childIndex env.threadIndex) isRekey
      let child := { child with localSaId := localSaId, remoteSaId := remoteSaId }
      let a : AddTunnelArgs := {
        localIp := if sa.isInitiator then sa.iaddr else sa.raddr
        remoteIp := if sa.isInitiator then sa.raddr else sa.iaddr
        localSpi := (if sa.isInitiator then rp.spi else ip.spi).setWidth 32
        remoteSpi := (if sa.isInitiator then ip.spi else rp.spi).setWidth 32
        isTunnel := sa.udpEncap
        udpEncap := sa.udpEncap || sa.nattActive
        useEsn := tunnelEsn proposals
        encrType := encrType
        integType := integType
        locCkey := [], remCkey := [], locIkey := [], remIkey := [], saltLocal := [], saltRemote := []
        isRekey := isRekey
        localSaId := localSaId
        remoteSaId := remoteSaId
        oldRemoteSaId := oldRemoteSaId
        swIfIndex := if sa.isTunItfSet then sa.tunItf else ~~~0
        ipsecOverUdpPort := sa.ipsecOverUdpPort
        srcPort := sa.ipsecOverUdpPort
        dstPort := if !sa.isInitiator && sa.nattActive then sa.dstPort else sa.ipsecOverUdpPort }
      return (sa, child, some (a.setKeys sa.isInitiator encrType.isAead child))

def ikev2DeleteTunnelInterface (sa : Sa) (child : ChildSa) : DelTunnelArgs where
  localIp := if sa.isInitiator then sa.iaddr else sa.raddr
  remoteIp := if sa.isInitiator then sa.raddr else sa.iaddr
  remoteSaId := child.remoteSaId
  localSaId := child.localSaId
  swIfIndex := if sa.isTunItfSet then sa.tunItf else ~~~0

end Vpp.Ikev2
