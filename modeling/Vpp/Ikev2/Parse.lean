import Vpp.Ikev2.Payload

/-! Reading IKEv2 payloads (`ikev2_payload.c` and the parsers of `ikev2.c`).

    A parser is given the bytes from the payload's header to the end of the message body (`mem`) and a
    length `rlen` it may trust. Every struct overlay of the source is a `slice` of `mem`, so a read past
    the end of the message is a fault. A vector that comes back null is the empty list. Sizes of the
    source are 64-bit unsigned, where a difference below zero wraps around. -/

namespace Vpp.Ikev2
open Vpp.Schemes
open BitVec (ofNat)

/-- `clib_net_to_host_u16 (ikep->length)`. -/
def payloadLength (mem : Bytes) : Except Fault ℕ := do
  return fieldBe (← slice mem 2 2) 0 2

/-- `ikev2_check_payload_length`: the declared length, if it is at least a header and at most `rlen`. The
    first comparison is unsigned, so a negative `rlen` is only refused by the second one. -/
def ikev2CheckPayloadLength (mem : Bytes) (rlen : ℤ) : Except Fault (Option ℕ) := do
  if 0 ≤ rlen ∧ rlen < 4 then return none
  let plen ← payloadLength mem
  if plen < 4 ∨ rlen < plen then return none
  return some plen

/-! ### SA -/

/-- The transforms of one proposal, from `ikep->payload[transformPtr]` on; `none` is
    `goto data_corrupted`. -/
def parseTransforms (mem : Bytes) (rlen : ℕ) : ℕ → ℕ → Except Fault (Option (List SaTransform))
  | 0, _ => return some []
  | n + 1, transformPtr => do
    if transformPtr + 8 > rlen then return none
    let tr ← slice mem (4 + transformPtr) 8
    let tlen := fieldBe tr 2 2
    if tlen < 8 then return none
    if transformPtr + tlen > rlen then return none
    let attrs ← slice mem (4 + transformPtr + 8) (tlen - 8)
    match ← parseTransforms mem rlen n (transformPtr + tlen) with
    | none => return none
    | some ts => return some (⟨field8 tr 4, ofNat 16 (fieldBe tr 6 2), attrs⟩ :: ts)

/-- One proposal at `ikep->payload[proposalPtr]`: its header and content. -/
def parseProposal (mem : Bytes) (rlen proposalPtr : ℕ) : Except Fault (Option (Bytes × SaProposal)) := do
  if proposalPtr + 8 > rlen then return none
  let sap ← slice mem (4 + proposalPtr) 8
  let protocolId := field8 sap 5
  let spiSize := (field8 sap 6).toNat
  if protocolId = protocolIke ∧ spiSize ≠ 0 ∧ spiSize ≠ 8 then return none
  if protocolId = protocolEsp ∧ spiSize ≠ 4 then return none
  let transformPtr := proposalPtr + 8 + spiSize
  if transformPtr > rlen then return none
  let spi ← slice mem (4 + proposalPtr + 8) spiSize
  match ← parseTransforms mem rlen (field8 sap 7).toNat transformPtr with
  | none => return none
  | some ts =>
    -- an SPI of any other size stays zero
    let spi := if spiSize = 4 ∨ spiSize = 8 then ofBe spi else 0
    return some (sap, ⟨field8 sap 4, protocolId, ofNat 64 spi, ts⟩)

/-- The proposal loop. A proposal of length zero that announces another one is read again for ever. -/
def parseProposals (mem : Bytes) (rlen bodyLen : ℕ) :
    ℕ → ℕ → List SaProposal → Except Fault (List SaProposal)
  | 0, _, _ => throw .divergence
  | fuel + 1, proposalPtr, v => do
    match ← parseProposal mem rlen proposalPtr with
    | none => return []
    | some (sap, proposal) =>
      let proposalPtr := proposalPtr + fieldBe sap 2 2
      let lastOrMore := field8 sap 0
      if proposalPtr < bodyLen ∧ lastOrMore = 2 then
        parseProposals mem rlen bodyLen fuel proposalPtr (v ++ [proposal])
      else if proposalPtr ≠ bodyLen ∨ lastOrMore ≠ 0 then return []
      else return v ++ [proposal]

/-- `ikev2_parse_sa_payload`. The length of the body wraps around when less than a header is declared. A
    proposal is read inside `rlen` bytes only, so a loop that makes progress ends within `rlen` rounds. -/
def ikev2ParseSaPayload (mem : Bytes) (rlen : ℕ) : Except Fault (List SaProposal) := do
  let plen ← payloadLength mem
  if 4 > rlen then return []
  parseProposals mem (rlen - 4) ((plen + (2 ^ 64 - 4)) % 2 ^ 64) rlen 0 []

/-! ### Traffic selectors -/

/-- The address pair of one entry, `size` bytes each. -/
def parseAddrPair (mem : Bytes) (off size : ℕ) (addr : ℕ → IpAddress) :
    Except Fault (IpAddress × IpAddress) := do
  let pair ← slice mem off (2 * size)
  return (addr (fieldBe pair 0 size), addr (fieldBe pair size size))

/-- The entries of a traffic selector payload. The ports are copied without `clib_net_to_host_u16`,
    on a little-endian host; an entry's address pair is read without looking at `rlen`. -/
def parseTsEntries (mem : Bytes) (rlen : ℕ) : ℕ → ℕ → Except Fault (Option (List Ts))
  | 0, _ => return some []
  | nLeft + 1, p => do
    if p + 8 ≥ rlen then return none
    let pe ← slice mem (8 + p) 8
    let tsType := field8 pe 0
    if tsType ≠ tsIpv4AddrRange ∧ tsType ≠ tsIpv6AddrRange then return none
    let size := if tsType = tsIpv4AddrRange then 4 else 16
    let pair ← parseAddrPair mem (8 + p + 8) size
      (if tsType = tsIpv4AddrRange then fun n => .ip4 (ofNat 32 n)
        else fun n => .ip6 (ofNat 128 n))
    match ← parseTsEntries mem rlen nLeft (p + 8 + 2 * size) with
    | none => return none
    | some r =>
      return some (⟨tsType, field8 pe 1, ofNat 16 (ofLe ((pe.drop 4).take 2)),
        ofNat 16 (ofLe ((pe.drop 6).take 2)), pair.1, pair.2⟩ :: r)

def ikev2ParseTsPayload (mem : Bytes) (rlen : ℕ) : Except Fault (List Ts) := do
  if 8 > rlen then return []
  let tsp ← slice mem 0 8
  match ← parseTsEntries mem (rlen - 8) (field8 tsp 4).toNat 0 with
  | none => return []
  | some r => return r

/-! ### The other payloads -/

/-- `ikev2_parse_notify_payload`; `none` is the null result. -/
def ikev2ParseNotifyPayload (mem : Bytes) (rlen : ℕ) : Except Fault (Option Notify) := do
  let plen ← payloadLength mem
  if 8 > rlen then return none
  let n ← slice mem 0 8
  let spiSize := (field8 n 5).toNat
  if spiSize ≠ 0 ∧ spiSize ≠ 4 then return none
  if spiSize = 4 ∧ 4 + 8 > rlen then return none
  let spi ← slice mem 8 spiSize
  -- no data when the declared length ends at or before the SPI
  let data ← slice mem (8 + spiSize) (plen - (8 + spiSize))
  return some ⟨ofNat 16 (fieldBe n 6 2), field8 n 4, ofNat 32 (ofBe spi), data⟩

/-- The SPIs of a delete payload. -/
def parseDeleteSpis (mem : Bytes) (protocolId : Byte) : ℕ → ℕ → Except Fault (List Delete)
  | 0, _ => return []
  | n + 1, i => do
    let spi ← slice mem (8 + 4 * i) 4
    let rest ← parseDeleteSpis mem protocolId n (i + 1)
    return ⟨protocolId, ofNat 32 (ofBe spi)⟩ :: rest

def ikev2ParseDeletePayload (mem : Bytes) (rlen : ℕ) : Except Fault (List Delete) := do
  if rlen < 8 then return []
  let d ← slice mem 0 8
  let numOfSpi := fieldBe d 6 2
  if field8 d 4 = protocolIke then return [⟨1, 0⟩]
  if 8 + numOfSpi * 4 > rlen then return []
  parseDeleteSpis mem (field8 d 4) numOfSpi 0

/-- `vec_add (data, &mem[off], len)` to an empty vector: `_vec_add` returns at once when the signed
    length is less than one, so nothing is read for a declared length that ends at or before `off`. -/
def copyRest (mem : Bytes) (off plen : ℕ) : Except Fault Bytes :=
  if plen ≤ off then return [] else slice mem off (plen - off)

/-- `ikev2_parse_ke_payload`: the group and the public value; `none` is a failed parse. -/
def ikev2ParseKePayload (mem : Bytes) (rlen : ℕ) : Except Fault (Option (BitVec 16 × Bytes)) := do
  let plen ← payloadLength mem
  if 8 > rlen then return none
  let ke ← slice mem 0 6
  let data ← copyRest mem 8 plen
  return some (ofNat 16 (fieldBe ke 4 2), data)

/-- `ikev2_parse_nonce_payload` and the copy its callers make of the nonce it points to. -/
def ikev2ParseNoncePayload (mem : Bytes) : Except Fault (Option Bytes) := do
  let plen ← payloadLength mem
  if plen < 4 + 16 ∨ plen > 4 + 256 then return none
  return some (← slice mem 4 (plen - 4))

/-- `ikev2_parse_id_payload`. Its `rlen` is a `u16`. -/
def ikev2ParseIdPayload (mem : Bytes) (rlen : ℕ) : Except Fault (Option Id) := do
  let plen ← payloadLength mem
  if plen < 8 ∨ plen > rlen % 2 ^ 16 then return none
  let id ← slice mem 4 1
  let data ← slice mem 8 (plen - 8)
  return some ⟨field8 id 0, data⟩

/-- `ikev2_parse_auth_payload`: no check at all. -/
def ikev2ParseAuthPayload (mem : Bytes) : Except Fault (Byte × Bytes) := do
  let plen ← payloadLength mem
  let ah ← slice mem 4 1
  return (field8 ah 0, ← copyRest mem 8 plen)

end Vpp.Ikev2
