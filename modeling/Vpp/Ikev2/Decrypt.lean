import Vpp.Ikev2.Auth

/-! `ikev2_decrypt_sk_payload`: finding the SK payload of a message, checking its integrity and
    decrypting it. -/

namespace Vpp.Ikev2
open Vpp.Schemes List

/-- A received message: header, body, addresses and ports of the packet, the interface it came in on,
    and the writable buffer behind the IKE header when a reply is built there. -/
structure Rx where
  hdr : IkeHeader
  body : Bytes
  src : IpAddress
  dst : IpAddress
  srcPort : BitVec 16
  dstPort : BitVec 16
  swIfIndex : BitVec 32
  room : Bytes

/-- The message as it stands in memory from the IKE header on. -/
def Rx.message (rx : Rx) : Bytes := rx.hdr.bytes ++ rx.body

/-- A message that carries nothing but its body, between two hosts that stay the same. -/
def Rx.ofBody (exchange flags nextpayload : Byte) (body : Bytes) : Rx where
  hdr := ⟨1, 0, nextpayload, ikeVersion2, exchange, flags, 0, BitVec.ofNat 32 (28 + body.length)⟩
  body := body
  src := .ip4 1
  dst := .ip4 2
  srcPort := 500
  dstPort := 500
  swIfIndex := 0
  room := replicate 100 0

def Rx.withIds (rx : Rx) (rspi : BitVec 64) (msgid : BitVec 32) : Rx :=
  { rx with hdr := { rx.hdr with rspi := rspi, msgid := msgid } }

def gcm128 : SaTransform := ⟨transformTypeEncr, encrTypeAesGcm16, [0x80, 14, 0, 128]⟩

/-- A proposal for IKE, and an established SA for which it was chosen. -/
def ikeGcm : SaProposal :=
  ⟨1, protocolIke, 0, [gcm128, ⟨transformTypePrf, 2, []⟩, ⟨transformTypeDh, 1, []⟩]⟩

def gcmSa (rspi : BitVec 64) : Sa :=
  { state := .authenticated, ispi := 1, rspi := rspi
    rProposals := [ikeGcm]
    skEi := replicate 20 1, skEr := replicate 20 2 }

/-- A message for the SA with SPI 9, without any payload, and one with an empty SK payload. -/
def bareMessage (exchange flags : Byte) (msgid : BitVec 32) : Rx :=
  (Rx.ofBody exchange flags payloadNone []).withIds 9 msgid

def emptyMessage (exchange flags : Byte) (msgid : BitVec 32) : Rx :=
  (Rx.ofBody exchange flags payloadSk ([0, 0, 0, 29] ++ replicate 25 0)).withIds 9 msgid

/-- `ikep->flags & IKEV2_PAYLOAD_FLAG_CRITICAL`. -/
def payloadIsCritical (mem : Bytes) : Except Fault Bool := do
  return decide (field8 (← slice mem 1 1) 0 &&& payloadFlagCritical ≠ 0)

/-- How the walk to the SK payload ends. -/
inductive SkSearch where
  /-- the SK payload at this offset of the body, with its declared length -/
  | found (off plen : ℕ)
  /-- an unknown critical payload on the way -/
  | critical (payload : Byte)
  | notFound

/-- The walk over the outer payloads. Every payload is at least four bytes long, so as many rounds as
    the body has bytes are enough. -/
def findSk : ℕ → Byte → Bytes → ℕ → Except Fault SkSearch
  | 0, _, _, _ => return .notFound
  | fuel + 1, payload, mem, off => do
    if mem = [] ∨ payload = payloadNone then return .notFound
    match ← ikev2CheckPayloadLength mem mem.length with
    | none => return .notFound
    | some plen =>
      if payload = payloadSk then return .found off plen
      if ← payloadIsCritical mem then return .critical payload
      findSk fuel (field8 (← slice mem 0 1) 0) (mem.drop plen) (off + plen)

/-- The decrypted bytes, which replace the ciphertext, and `*out_len`. -/
structure Decrypted where
  plain : Bytes
  outLen : BitVec 32
  deriving DecidableEq

/-- `len - data[len - 1] - 1`, not checked. Where nothing was encrypted, the byte is the last one of the
    IV. -/
def padOutLen (iv plain : Bytes) : BitVec 32 :=
  BitVec.ofNat 32 plain.length - ((iv ++ plain).getLastD 0).setWidth 32 - 1

section
variable (cr : Crypto)

/-- `ikev2_decrypt_data`, with the byte of the message before `data` and the bytes after it. Without an IV
    the length is negative: OpenSSL decrypts nothing, reports no error at the end either, and the byte
    that is taken for the padding is the one before. -/
def ikev2DecryptData (key : Bytes) (trEncr : TransformData) (before : Byte) (data after : Bytes) :
    Except Fault (Option Decrypted) := do
  if data.length % trEncr.blockSize ≠ 0 then return none
  let iv ← slice (data ++ after) 0 trEncr.blockSize
  if data.length < trEncr.blockSize then
    return some ⟨[], BitVec.ofInt 32 (-trEncr.blockSize - before.toNat - 1)⟩
  match cr.decrypt trEncr key iv (data.drop trEncr.blockSize) with
  | none => return none
  | some plain => return some ⟨plain, padOutLen iv plain⟩

def ikev2DecryptAeadData (key : Bytes) (trEncr : TransformData) (data aad tag : Bytes) :
    Except Fault (Option Decrypted) := do
  if data.length ≤ gcmIvSize then return none
  let iv := data.take gcmIvSize
  match cr.decryptAead trEncr key (key.drop (key.length - gcmSaltSize) ++ iv) aad (data.drop gcmIvSize) tag with
  | none => return none
  | some plain => return some ⟨plain, padOutLen iv plain⟩

/-- An SK payload that was decrypted in place: the type of the first inner payload, what the cipher
    reports, and the bytes of the message behind the plaintext. -/
structure Opened where
  nextpayload : Byte
  data : Decrypted
  rest : Bytes
  deriving DecidableEq

/-- What can be read from `plaintext` on. -/
def Opened.mem (o : Opened) : Bytes := o.data.plain ++ o.rest

/-- The SK payload of `rx`, opened. -/
def openSk (sa : Sa) (rx : Rx) (trEncr : TransformData) (trInteg : Option TransformData) (isAead : Bool)
    (off plen : ℕ) : Except Fault (Option Opened) := do
  let mem := rx.body.drop off
  let nextpayload := field8 (← slice mem 0 1) 0
  let key := if sa.isInitiator then sa.skEr else sa.skEi
  let opened (ivSize : ℕ) (d : Decrypted) : Opened := ⟨nextpayload, d, mem.drop (4 + ivSize + d.plain.length)⟩
  if isAead then
    if plen < 4 + gcmIcvSize then return none
    let data ← slice mem 4 (plen - (4 + gcmIcvSize))
    let tag ← slice mem (plen - gcmIcvSize) gcmIcvSize
    let aad := rx.hdr.bytes ++ rx.body.take (off + 4)
    return (← ikev2DecryptAeadData cr key trEncr data aad tag).map (opened gcmIvSize)
  else
    let trInteg ← deref trInteg
    if rx.message.length < trInteg.keyTrunc then return none
    let hmac := cr.integr trInteg (if sa.isInitiator then sa.skAr else sa.skAi)
      (rx.message.take (rx.message.length - trInteg.keyTrunc))
    if plen < 4 + trInteg.keyTrunc then return none
    let icv ← slice mem (plen - trInteg.keyTrunc) trInteg.keyTrunc
    if clibMemcmp hmac icv trInteg.keyTrunc then return none
    let data ← slice mem 4 (plen - (4 + trInteg.keyTrunc))
    let after := mem.drop (plen - trInteg.keyTrunc)
    return (← ikev2DecryptData cr key trEncr (field8 mem 3) data after).map (opened trEncr.blockSize)

/-- `ikev2_decrypt_sk_payload`. Only `unsupported_cp` of the SA is written. -/
def ikev2DecryptSkPayload (sa : Sa) (rx : Rx) :
    Except Fault (Sa × Option Opened) := do
  let trInteg := ikev2SaGetTdForType supportedTransforms sa.rProposals transformTypeInteg
  let trEncr ← deref (ikev2SaGetTdForType supportedTransforms sa.rProposals transformTypeEncr)
  let isAead := decide (trEncr.transformId = encrTypeAesGcm16)
  if ((sa.skAr = [] ∨ sa.skAi = []) ∧ isAead = false) ∨ sa.skEi = [] ∨ sa.skEr = [] then
    return (sa, none)
  match ← findSk rx.body.length rx.hdr.nextpayload rx.body 0 with
  | .notFound => return (sa, none)
  | .critical payload => return ({ sa with unsupportedCp := payload }, none)
  | .found off plen => return (sa, ← openSk cr sa rx trEncr trInteg isAead off plen)

/-- Whatever the message, at most `unsupported_cp` changes. -/
theorem ikev2DecryptSkPayload_frame {cr : Crypto} {sa sa' : Sa} {rx : Rx}
    {r : Option Opened} (h : ikev2DecryptSkPayload cr sa rx = .ok (sa', r)) :
    ∃ cp, sa' = { sa with unsupportedCp := cp } := by
  simp only [ikev2DecryptSkPayload, bind_eq_ok] at h
  obtain ⟨trEncr, -, h⟩ := h
  split at h
  · cases h; exact ⟨sa.unsupportedCp, rfl⟩
  · obtain ⟨found, -, h⟩ := bind_eq_ok.mp h
    cases found with
    | found off plen =>
      obtain ⟨_, -, h⟩ := bind_eq_ok.mp h
      cases h; exact ⟨sa.unsupportedCp, rfl⟩
    | critical payload => cases h; exact ⟨payload, rfl⟩
    | notFound => cases h; exact ⟨sa.unsupportedCp, rfl⟩

end

end Vpp.Ikev2
