import Vpp.Ikev2.Types

/-! Writing IKEv2 payloads (`ikev2_payload.c`).

    Payloads are chained: each starts with a header that names the type of the next one and its own
    length. The chain keeps the offset of its last header, so that adding a payload can fill in
    `nextpayload`, and adding data can extend `length`.

        +-------------+-------+--------+----------------+
        | nextpayload | flags | length | data           |
        +-------------+-------+--------+----------------+
          1 byte        1       2        length - 4       -/

namespace Vpp.Ikev2
open Vpp.Schemes List

/-- `ikev2_payload_chain_t`. -/
structure PayloadChain where
  firstPayloadType : Byte := 0
  lastHdrOff : ℕ := 0
  data : Bytes := []
  deriving DecidableEq

/-- `ikev2_payload_add_hdr`: the header of `len` bytes is zero but for its length. The offset of the
    last header is kept in 16 bits. -/
def ikev2PayloadAddHdr (c : PayloadChain) (payloadType : Byte) (len : ℕ) : PayloadChain where
  firstPayloadType := if c.data = [] then payloadType else c.firstPayloadType
  lastHdrOff := c.data.length % 2 ^ 16
  data := (if c.data = [] then [] else writeAt c.data c.lastHdrOff [payloadType]) ++
    writeAt (replicate len 0) 2 (toBe 2 len)

/-- `ikev2_payload_add_data`: append, and add to the 16-bit length of the last header. -/
def ikev2PayloadAddData (c : PayloadChain) (data : Bytes) : PayloadChain :=
  let len := fieldBe c.data (c.lastHdrOff + 2) 2
  { c with data := writeAt (c.data ++ data) (c.lastHdrOff + 2) (toBe 2 (len + data.length)) }

/-- Set a byte of the header added last, as the `add` functions do through the returned pointer. -/
def PayloadChain.setHdr (c : PayloadChain) (k : ℕ) (bs : Bytes) : PayloadChain :=
  { c with data := writeAt c.data (c.lastHdrOff + k) bs }

/-- `ikev2_payload_add_notify_2`; `notify` carries the protocol and SPI of a rekeyed child. -/
def ikev2PayloadAddNotify2 (c : PayloadChain) (msgType : BitVec 16) (data : Bytes)
    (notify : Option Notify) : PayloadChain :=
  let c := (ikev2PayloadAddHdr c payloadNotify 8).setHdr 6 (toBe 2 msgType.toNat)
  let c := match notify with
    | none => c
    | some n =>
      let c := c.setHdr 4 [n.protocolId]
      if n.spi ≠ 0 then c.setHdr 5 [4] else c
  ikev2PayloadAddData c data

def ikev2PayloadAddNotify (c : PayloadChain) (msgType : BitVec 16) (data : Bytes) : PayloadChain :=
  ikev2PayloadAddNotify2 c msgType data none

/-! ### SA -/

/-- One transform substructure; `last_or_more` is 3 when another one follows. -/
def transformData (t : SaTransform) (more : Bool) : Bytes :=
  [if more then 3 else 0, 0] ++ toBe 2 (8 + t.attrs.length) ++ [t.type, 0] ++
    toBe 2 t.transformId.toNat ++ t.attrs

/-- The `tr_data` of a proposal. -/
def transformsData : List SaTransform → Bytes
  | [] => []
  | t :: ts => transformData t (decide (ts ≠ [])) ++ transformsData ts

/-- The SPI size `ikev2_payload_add_sa` picks for a proposal. -/
def spiSize (p : SaProposal) (forceSpi : Bool) : ℕ :=
  if p.protocolId = protocolEsp then 4
  else if forceSpi && decide (p.protocolId = protocolIke) then 8
  else 0

/-- The `pr_data` and `tr_data` of one proposal. -/
def proposalData (p : SaProposal) (forceSpi : Bool) (lastOrMore : Byte) : Bytes × Bytes :=
  let n := spiSize p forceSpi
  let trData := transformsData p.transforms
  ([lastOrMore, 0] ++ toBe 2 (trData.length + (8 + n)) ++
    [p.proposalNum, p.protocolId, BitVec.ofNat 8 n, BitVec.ofNat 8 p.transforms.length] ++
    toBe n p.spi.toNat, trData)

/-- `proposals - p + 1 < vec_len (proposals) ? 2 : 0` for the proposal at index `i`: the pointer
    difference is taken backwards, so it is `-i`. -/
def proposalLastOrMore (i n : ℕ) : Byte := if -(i : ℤ) + 1 < n then 2 else 0

def ikev2PayloadAddSa (c : PayloadChain) (proposals : List SaProposal) (forceSpi : Bool) : PayloadChain :=
  proposals.zipIdx.foldl
    (fun c pi =>
      let d := proposalData pi.1 forceSpi (proposalLastOrMore pi.2 proposals.length)
      ikev2PayloadAddData (ikev2PayloadAddData c d.1) d.2)
    (ikev2PayloadAddHdr c payloadSa 4)

/-! ### Traffic selectors -/

/-- `ikev2_payload_add_ts_entry`. The addresses are copied with the size of their own family, which
    the callers keep in line with `ts_type`. -/
def tsEntry (ts : Ts) : Bytes :=
  let addrLen := if ts.tsType = tsIpv4AddrRange then 4 else 16
  let len := 8 + 2 * addrLen
  let hdr := [ts.tsType, ts.protocolId] ++ toBe 2 len ++ toBe 2 ts.startPort.toNat ++
    toBe 2 ts.endPort.toNat
  writeAt (writeAt (hdr ++ replicate (2 * addrLen) 0) 8 ts.startAddr.bytes) (8 + addrLen)
    ts.endAddr.bytes

def ikev2PayloadAddTs (c : PayloadChain) (tss : List Ts) (type : Byte) : PayloadChain :=
  ikev2PayloadAddData
    ((ikev2PayloadAddHdr c type 8).setHdr 4 [BitVec.ofNat 8 tss.length])
    (tss.flatMap tsEntry)

/-! ### The other payloads -/

def ikev2PayloadAddKe (c : PayloadChain) (dhGroup : BitVec 16) (dhData : Bytes) : PayloadChain :=
  ikev2PayloadAddData ((ikev2PayloadAddHdr c payloadKe 8).setHdr 4 (toBe 2 dhGroup.toNat)) dhData

def ikev2PayloadAddNonce (c : PayloadChain) (nonce : Bytes) : PayloadChain :=
  ikev2PayloadAddData (ikev2PayloadAddHdr c payloadNonce 4) nonce

def ikev2PayloadAddId (c : PayloadChain) (id : Id) (type : Byte) : PayloadChain :=
  ikev2PayloadAddData ((ikev2PayloadAddHdr c type 8).setHdr 4 [id.type]) id.data

def ikev2PayloadAddAuth (c : PayloadChain) (auth : Auth) : PayloadChain :=
  ikev2PayloadAddData ((ikev2PayloadAddHdr c payloadAuth 8).setHdr 4 [auth.method]) auth.data

/-- `ikev2_payload_add_delete`: the first entry decides the protocol. -/
def ikev2PayloadAddDelete (c : PayloadChain) (d : List Delete) : PayloadChain :=
  let c := ikev2PayloadAddHdr c payloadDelete 8
  match d.head? with
  | none => c
  | some d0 =>
    if d0.protocolId = protocolIke then c.setHdr 4 [1]
    else
      let c := ((c.setHdr 4 [d0.protocolId]).setHdr 5 [4]).setHdr 6 (toBe 2 d.length)
      d.foldl (fun c e => ikev2PayloadAddData c (toBe 4 e.spi.toNat)) c

def ikev2PayloadChainAddPadding (c : PayloadChain) (bs : ℕ) : PayloadChain :=
  let padLen := ((c.data.length / bs + 1) * bs - c.data.length) % 2 ^ 8
  let data := c.data ++ replicate padLen 0
  { c with data := writeAt data (data.length - 1) [BitVec.ofNat 8 (padLen + 255)] }

end Vpp.Ikev2
