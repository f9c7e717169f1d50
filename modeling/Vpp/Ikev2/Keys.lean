import Vpp.Ikev2.Proposal

/-! Key derivation (`ikev2_calc_keys`, `ikev2_calc_child_keys`) over arbitrary primitives.

    The cryptographic library is a parameter: nothing is assumed of its functions but the lengths of
    what they write, which the source fixes by allocating the result. Random bytes are an input. -/

namespace Vpp.Ikev2
open Vpp.Schemes List

abbrev gcmIcvSize : ℕ := 16
abbrev gcmSaltSize : ℕ := 4
abbrev gcmIvSize : ℕ := 8

/-- The primitives of `ikev2_crypto.c`. -/
structure Crypto where
  /-- `ikev2_calc_prf`: key, data -/
  prf : TransformData → Bytes → Bytes → Bytes
  prf_length : ∀ tr key data, (prf tr key data).length = tr.keyTrunc
  /-- `ikev2_calc_integr`: key, data -/
  integr : TransformData → Bytes → Bytes → Bytes
  integr_length : ∀ tr key data, (integr tr key data).length = tr.keyLen
  /-- key, IV, data; `none` when `EVP_DecryptFinal_ex` fails -/
  decrypt : TransformData → Bytes → Bytes → Bytes → Option Bytes
  /-- key, nonce, additional data, data, tag -/
  decryptAead : TransformData → Bytes → Bytes → Bytes → Bytes → Bytes → Option Bytes
  /-- key, IV, data -/
  encrypt : TransformData → Bytes → Bytes → Bytes → Bytes
  encrypt_length : ∀ tr key iv data, (encrypt tr key iv data).length = data.length
  /-- key, nonce, additional data, data -/
  encryptAead : TransformData → Bytes → Bytes → Bytes → Bytes → Bytes
  encryptAead_length : ∀ tr key nonce aad data, (encryptAead tr key nonce aad data).length = data.length
  aeadTag : TransformData → Bytes → Bytes → Bytes → Bytes → Bytes
  aeadTag_length : ∀ tr key nonce aad data, (aeadTag tr key nonce aad data).length = gcmIcvSize
  /-- public and private value of a seed; shared value of private value, own and peer's public value -/
  dhPublic : TransformData → ℕ → Bytes
  dhPrivate : TransformData → ℕ → Bytes
  dhShared : TransformData → Bytes → Bytes → Bytes → Bytes
  /-- `ikev2_verify_sign`: key, signature, data -/
  verifySign : ℕ → Bytes → Bytes → Bool
  /-- `ikev2_calc_sign`: key, data -/
  calcSign : ℕ → Bytes → Bytes
  sha1 : Bytes → Bytes
  sha1_length : ∀ data, (sha1 data).length = 20

/-- Primitives that write zeroes and accept everything: an instance to evaluate the model with. -/
def Crypto.zero : Crypto where
  prf tr _ _ := replicate tr.keyTrunc 0
  prf_length _ _ _ := length_replicate
  integr tr _ _ := replicate tr.keyLen 0
  integr_length _ _ _ := length_replicate
  decrypt _ _ _ data := some data
  decryptAead _ _ _ _ data _ := some data
  encrypt _ _ _ data := data
  encrypt_length _ _ _ _ := rfl
  encryptAead _ _ _ _ data := data
  encryptAead_length _ _ _ _ _ := rfl
  aeadTag _ _ _ _ _ := replicate gcmIcvSize 0
  aeadTag_length _ _ _ _ _ := length_replicate
  dhPublic tr _ := replicate tr.keyLen 0
  dhPrivate tr _ := replicate tr.keyLen 0
  dhShared tr _ _ _ := replicate tr.keyLen 0
  verifySign _ _ _ := true
  calcSign _ _ := []
  sha1 _ := replicate 20 0
  sha1_length _ := length_replicate

/-- What `RAND_bytes` delivers while one message is handled. -/
structure Rand where
  spi : BitVec 64
  proposalSpi : BitVec 64
  nonceByte : ℕ → Byte
  ivByte : ℕ → Byte
  dhSeed : ℕ

def Rand.zero : Rand := ⟨0, 0, fun _ => 0, fun _ => 0, 0⟩

def Rand.nonce (r : Rand) (n : ℕ) : Bytes := (range n).map r.nonceByte
def Rand.iv (r : Rand) (n : ℕ) : Bytes := (range n).map r.ivByte

section
variable (cr : Crypto)

/-- The loop of `ikev2_calc_prfplus` with the counter at `255 - fuel`. -/
def prfplusLoop (tr : TransformData) (key seed : Bytes) (len : ℕ) : ℕ → Bytes → Bytes → Bytes
  | 0, _, _ => []
  | fuel + 1, t, ret =>
    if ret.length < len then
      let t := cr.prf tr key (t ++ seed ++ [BitVec.ofNat 8 (255 - fuel)])
      prfplusLoop tr key seed len fuel t (ret ++ t)
    else ret

/-- `ikev2_calc_prfplus`; null once the one-byte counter is used up. -/
def ikev2CalcPrfplus (tr : TransformData) (key seed : Bytes) (len : ℕ) : Bytes :=
  prfplusLoop cr tr key seed len 255 [] []

def ikev2CalcKeysInternal (sa : Sa) (skeyseed : Bytes) : Except Fault Sa := do
  let trEncr ← deref (ikev2SaGetTdForType supportedTransforms sa.rProposals transformTypeEncr)
  let trPrf ← deref (ikev2SaGetTdForType supportedTransforms sa.rProposals transformTypePrf)
  let trInteg := ikev2SaGetTdForType supportedTransforms sa.rProposals transformTypeInteg
  let integKeyLen := (trInteg.map (·.keyLen)).getD 0
  let saltLen := if trInteg.isSome then 0 else 4
  let s := sa.iNonce ++ sa.rNonce ++ toBe 8 sa.ispi.toNat ++ toBe 8 sa.rspi.toNat
  let len := trPrf.keyTrunc + integKeyLen * 2 + trEncr.keyLen * 2 + trPrf.keyLen * 2 + saltLen * 2
  let keymat := ikev2CalcPrfplus cr trPrf skeyseed s len
  let pos := 0
  let skD ← slice keymat pos trPrf.keyTrunc
  let pos := pos + trPrf.keyTrunc
  let skAi ← slice keymat pos integKeyLen
  let skAr ← slice keymat (pos + integKeyLen) integKeyLen
  let pos := pos + integKeyLen + integKeyLen
  let skEi ← slice keymat pos (trEncr.keyLen + saltLen)
  let pos := pos + (trEncr.keyLen + saltLen)
  let skEr ← slice keymat pos (trEncr.keyLen + saltLen)
  let pos := pos + (trEncr.keyLen + saltLen)
  let skPi ← slice keymat pos trPrf.keyLen
  let skPr ← slice keymat (pos + trPrf.keyLen) trPrf.keyLen
  return { sa with
    skD := skD
    -- without an integrity transform these two keep what they were
    skAi := if integKeyLen = 0 then sa.skAi else skAi
    skAr := if integKeyLen = 0 then sa.skAr else skAr
    skEi := skEi, skEr := skEr, skPi := skPi, skPr := skPr, keysGenerated := true }

def ikev2CalcKeys (sa : Sa) : Except Fault Sa := do
  let trPrf ← deref (ikev2SaGetTdForType supportedTransforms sa.rProposals transformTypePrf)
  ikev2CalcKeysInternal cr sa (cr.prf trPrf (sa.iNonce ++ sa.rNonce) sa.dhSharedKey)

def ikev2CalcKeysRekey (saNew saOld : Sa) : Except Fault Sa := do
  let trPrf ← deref (ikev2SaGetTdForType supportedTransforms saOld.rProposals transformTypePrf)
  ikev2CalcKeysInternal cr saNew
    (cr.prf trPrf saOld.skD (saNew.dhSharedKey ++ saNew.iNonce ++ saNew.rNonce))

/-- `ikev2_calc_child_keys`. The keys are cut for the transforms of `r_proposals`. -/
def ikev2CalcChildKeys (sa : Sa) (child : ChildSa) (kex : Bool) : Except Fault ChildSa := do
  let trPrf ← deref (ikev2SaGetTdForType supportedTransforms sa.rProposals transformTypePrf)
  let ctrEncr ← deref (ikev2SaGetTdForType supportedTransforms child.rProposals transformTypeEncr)
  let ctrInteg := ikev2SaGetTdForType supportedTransforms child.rProposals transformTypeInteg
  let integKeyLen := (ctrInteg.map (·.keyLen)).getD 0
  let saltLen := if ctrInteg.isSome then 0 else 4
  let s := (if kex then sa.dhSharedKey else []) ++ sa.iNonce ++ sa.rNonce
  let len := ctrEncr.keyLen * 2 + integKeyLen * 2 + saltLen * 2
  let keymat := ikev2CalcPrfplus cr trPrf sa.skD s len
  let pos := 0
  let skEi ← slice keymat pos ctrEncr.keyLen
  let pos := pos + ctrEncr.keyLen
  let skAi ← slice keymat pos integKeyLen
  let saltEi ← slice keymat pos saltLen
  let pos := pos + (integKeyLen + saltLen)
  let skEr ← slice keymat pos ctrEncr.keyLen
  let pos := pos + ctrEncr.keyLen
  let skAr ← slice keymat pos integKeyLen
  let saltEr ← slice keymat pos saltLen
  return { child with
    skEi := skEi, skEr := skEr
    skAi := if ctrInteg.isSome then skAi else child.skAi
    skAr := if ctrInteg.isSome then skAr else child.skAr
    saltEi := if ctrInteg.isSome then child.saltEi else saltEi
    saltEr := if ctrInteg.isSome then child.saltEr else saltEr }

def ikev2GenerateDh (rnd : Rand) (sa : Sa) (t : TransformData) : Sa :=
  if sa.isInitiator then
    { sa with iDhData := cr.dhPublic t rnd.dhSeed, dhPrivateKey := cr.dhPrivate t rnd.dhSeed }
  else
    { sa with
      rDhData := cr.dhPublic t rnd.dhSeed
      dhSharedKey := cr.dhShared t (cr.dhPrivate t rnd.dhSeed) (cr.dhPublic t rnd.dhSeed) sa.iDhData }

def ikev2CompleteDh (sa : Sa) (t : TransformData) : Sa :=
  { sa with dhSharedKey := cr.dhShared t sa.dhPrivateKey sa.iDhData sa.rDhData }

/-- `ikev2_generate_sa_init_data`; the Boolean is `IKEV2_GENERATE_SA_INIT_OK`. -/
def ikev2GenerateSaInitData (rnd : Rand) (sa : Sa) : Sa × Bool :=
  if sa.dhGroup = dhTypeNone then (sa, false)
  else
    match findDhGroup supportedTransforms sa.dhGroup with
    | none => ({ sa with dhGroup := dhTypeNone }, false)
    | some t =>
      let sa :=
        if sa.isInitiator then { sa with ispi := rnd.spi, iNonce := rnd.nonce 32 }
        else { sa with rspi := rnd.spi, rNonce := rnd.nonce sa.iNonce.length }
      (ikev2GenerateDh cr rnd sa t, true)

/-- `ikev2_compute_nat_sha1`, with the SPIs in host byte order. -/
def ikev2ComputeNatSha1 (ispi rspi : BitVec 64) (ia : IpAddress) (port : BitVec 16) : Bytes :=
  cr.sha1 (toBe 8 ispi.toNat ++ toBe 8 rspi.toNat ++ ia.bytes ++ toBe 2 port.toNat)

end

end Vpp.Ikev2
