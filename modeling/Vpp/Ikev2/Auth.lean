import Vpp.Ikev2.Keys
import Vpp.Ikev2.Parse

/-! Authentication of the peer in IKE_AUTH: `ikev2_select_profile`, `ikev2_sa_auth`,
    `ikev2_sa_match_ts`.

    A shared-key AUTH payload is compared with the expected digest over the length the peer sent, by a
    `clib_memcmp` that reports "no difference" for length zero. So the digest is really checked only
    when the peer sends exactly as many bytes as the prf has (`pskSound_iff`). -/

namespace Vpp.Ikev2
open Vpp.Schemes List

/-- `ikev2_profile_t`; the fields only the initiating side reads are left out. -/
structure Profile where
  auth : Auth
  locId : Id
  remId : Id
  locTs : Ts
  remTs : Ts
  ipsecOverUdpPort : BitVec 16
  tunItf : BitVec 32
  udpEncap : Bool
  deriving DecidableEq

/-- The part of `ikev2_main_t` a worker reads. `profiles` is the pool with its indices; `sais` holds
    the initiated SAs that wait for a response, which `sa_by_ispi` finds by their `ispi`. -/
structure Ikev2Main where
  profiles : List (ℕ × Profile)
  pkey : ℕ
  sais : List Sa

/-- What one message is handled with besides the state: primitives, random bytes, the worker's
    index, and the memory that happens to lie behind the digest computed for a profile. -/
structure Env where
  cr : Crypto
  rnd : Rand
  threadIndex : BitVec 32
  following : ℕ → ℕ → Byte

/-- `clib_memcmp` reports a difference. A null argument or the length zero is an error inside
    `memcmp_s_inline`, which leaves the result at zero. -/
def clibMemcmp (s1 s2 : Bytes) (n : ℕ) : Bool :=
  if s1 = [] ∨ s2 = [] ∨ n = 0 then false else decide (s1.take n ≠ s2.take n)

def ikev2IsIdEqual (i1 i2 : Id) : Bool :=
  decide (i1.type = i2.type) && decide (i1.data.length = i2.data.length) &&
    !clibMemcmp i1.data i2.data i1.data.length

def ikev2MatchProfile (p : Profile) (idLoc idRem : Id) (isInitiator : Bool) : Bool :=
  !((isInitiator || decide (idLoc.type ≠ 0)) && !ikev2IsIdEqual p.locId idLoc) &&
    !((!isInitiator || decide (p.remId.type ≠ 0)) && !ikev2IsIdEqual p.remId idRem)

/-- The peer's and the own identity, and the authentication data the peer sent. -/
def Sa.idRem (sa : Sa) : Id := if sa.isInitiator then sa.rId else sa.iId
def Sa.idLoc (sa : Sa) : Id := if sa.isInitiator then sa.iId else sa.rId
def Sa.peerAuth (sa : Sa) : Auth := if sa.isInitiator then sa.rAuth else sa.iAuth

/-- `IKEV2_KEY_PAD`, "Key Pad for IKEv2". -/
def keyPad : Bytes :=
  [0x4b, 0x65, 0x79, 0x20, 0x50, 0x61, 0x64, 0x20, 0x66, 0x6f, 0x72, 0x20, 0x49, 0x4b, 0x45, 0x76, 0x32]

section
variable (cr : Crypto) (trPrf : TransformData)

def ikev2SaGenerateAuthmsg (sa : Sa) (isResponder : Bool) : Bytes :=
  let id := if isResponder then sa.rId else sa.iId
  let key := if isResponder then sa.skPr else sa.skPi
  let nonce := if isResponder then sa.iNonce else sa.rNonce
  let packetData := if isResponder then sa.lastSaInitResPacketData else sa.lastSaInitReqPacketData
  packetData ++ nonce ++ cr.prf trPrf key ([id.type, 0, 0, 0] ++ id.data)

/-- The digest a shared key stands for: `prf (prf (PSK, key pad), authmsg)`. -/
def pskDigest (psk authmsg : Bytes) : Bytes := cr.prf trPrf (cr.prf trPrf psk keyPad) authmsg

end

section
variable (env : Env) (km : Ikev2Main)

/-- What the comparison reads at the digest: the digest, and as much of the memory behind it as the
    length asks for. -/
def readFrom (digest : Bytes) (following : ℕ → Byte) (n : ℕ) : Bytes :=
  digest ++ (range (n - digest.length)).map following

/-- The test `ikev2_select_profile` makes of one profile. -/
def acceptsPeer (sa : Sa) (trPrf : TransformData) (ip : ℕ × Profile) : Bool :=
  let p := ip.2
  let authmsg := ikev2SaGenerateAuthmsg env.cr trPrf sa sa.isInitiator
  let saAuth := sa.peerAuth
  ikev2MatchProfile p sa.idLoc sa.idRem sa.isInitiator &&
    if saAuth.method = authMethodSharedKeyMic then
      decide (p.auth.data ≠ []) && decide (p.auth.method = authMethodSharedKeyMic) &&
        let auth := pskDigest env.cr trPrf p.auth.data authmsg
        !clibMemcmp (readFrom auth (env.following ip.1) saAuth.data.length) saAuth.data saAuth.data.length
    else if saAuth.method = authMethodRsaSig then
      decide (p.auth.method = authMethodRsaSig) && env.cr.verifySign p.auth.key saAuth.data authmsg
    else false

/-- `ikev2_select_profile`: the first profile that accepts the peer. -/
def ikev2SelectProfile (sa : Sa) (trPrf : TransformData) : Sa × Option Profile :=
  match km.profiles.find? (acceptsPeer env sa trPrf) with
  | some (_, p) => ({ sa with state := .authenticated }, some p)
  | none => (sa, none)

/-- What `ikev2_sa_auth` does on the responder once a profile is selected. -/
def ikev2SaAuthRespond (sa : Sa) (trPrf : TransformData) (selP : Profile) : Except Fault Sa := do
  let sa := { sa with rId := selP.locId, iId := selP.remId }
  let authmsg := ikev2SaGenerateAuthmsg env.cr trPrf sa true
  let rAuth :=
    if selP.auth.method = authMethodSharedKeyMic then
      { sa.rAuth with
        method := authMethodSharedKeyMic, data := pskDigest env.cr trPrf selP.auth.data authmsg }
    else if selP.auth.method = authMethodRsaSig then
      { sa.rAuth with method := authMethodRsaSig, data := env.cr.calcSign km.pkey authmsg }
    else sa.rAuth
  match sa.childs with
  | [] => throw .nullDeref
  | child :: rest =>
    let child := { child with
      rProposals := ikev2SelectProposal supportedTransforms env.rnd.proposalSpi child.iProposals
        protocolEsp }
    return { sa with
      rAuth := rAuth, childs := child :: rest
      isTunItfSet := decide (selP.tunItf ≠ ~~~0) || sa.isTunItfSet
      tunItf := if selP.tunItf ≠ ~~~0 then selP.tunItf else sa.tunItf }

def ikev2SaAuth (sa : Sa) : Except Fault Sa := do
  if sa.iAuth.method ≠ authMethodSharedKeyMic ∧ sa.iAuth.method ≠ authMethodRsaSig then
    return { sa with state := .authFailed }
  let trPrf ← deref (ikev2SaGetTdForType supportedTransforms sa.rProposals transformTypePrf)
  match ikev2SelectProfile env km sa trPrf with
  | (sa, none) => return { sa with state := .authFailed }
  | (sa, some selP) =>
    let sa := { sa with udpEncap := selP.udpEncap, ipsecOverUdpPort := selP.ipsecOverUdpPort }
    if sa.isInitiator then return sa
    ikev2SaAuthRespond env km sa trPrf selP

def ikev2SaAuthInit (sa : Sa) : Except Fault Sa := do
  if sa.iAuth.method ≠ authMethodSharedKeyMic ∧ sa.iAuth.method ≠ authMethodRsaSig then
    return { sa with state := .authFailed }
  let trPrf ← deref (ikev2SaGetTdForType supportedTransforms sa.rProposals transformTypePrf)
  let authmsg := ikev2SaGenerateAuthmsg env.cr trPrf sa false
  let data :=
    if sa.iAuth.method = authMethodSharedKeyMic then pskDigest env.cr trPrf sa.iAuth.data authmsg
    else env.cr.calcSign km.pkey authmsg
  return { sa with iAuth := { sa.iAuth with data := data } }

/-- `ikev2_sa_match_ts`: the first profile with matching identities decides. -/
def ikev2SaMatchTs (sa : Sa) : Except Fault Sa := do
  match km.profiles.find? fun ip => ikev2MatchProfile ip.2 sa.idLoc sa.idRem sa.isInitiator with
  | none => return { sa with state := .tsUnacceptable }
  | some (i, p) =>
    let sa := { sa with profileIndex := BitVec.ofNat 32 i }
    let pTsi := if sa.isInitiator then p.locTs else p.remTs
    let pTsr := if sa.isInitiator then p.remTs else p.locTs
    match sa.childs with
    | [] => throw .nullDeref
    | child :: rest =>
      match child.tsi.find? (ikev2TsCmp pTsi), child.tsr.find? (ikev2TsCmp pTsr) with
      | some tsi, some tsr => return { sa with childs := { child with tsi := [tsi], tsr := [tsr] } :: rest }
      | _, _ => return { sa with state := .tsUnacceptable }

end

/-! ### A responder with one shared key -/

/-- A profile with the shared key `secret`, for a peer of identity `id`. -/
def pskProfile (id secret : Bytes) : Profile where
  auth := ⟨authMethodSharedKeyMic, secret, 0⟩
  locId := ⟨2, [1]⟩
  remId := ⟨2, id⟩
  locTs := ⟨tsIpv4AddrRange, 0, 0, 0xffff, .ip4 0, .ip4 0xffffffff⟩
  remTs := ⟨tsIpv4AddrRange, 0, 0, 0xffff, .ip4 0, .ip4 0xffffffff⟩
  ipsecOverUdpPort := 4500
  tunItf := 0
  udpEncap := false

def pskMain : Ikev2Main := ⟨[(0, pskProfile [7] [1, 2, 3])], 0, []⟩

def Env.zero : Env := ⟨Crypto.zero, Rand.zero, 0, fun _ _ => 0⟩

/-- A responder's SA on which an AUTH payload with these bytes has been parsed. -/
def pskSa (auth : Byte × Bytes) : Sa :=
  { state := .saInit, iId := ⟨2, [7]⟩, iAuth := ⟨auth.1, auth.2, 0⟩ }

def prfSha1 : TransformData := ⟨transformTypePrf, 2, 20, 20, 0⟩

/-! ### Shared-key authentication -/

section
variable {env : Env} {km : Ikev2Main} {sa : Sa} {trPrf : TransformData}

/-- A profile whose shared key the peer's AUTH data is compared against. -/
def PskCandidate (sa : Sa) (p : Profile) : Prop :=
  ikev2MatchProfile p sa.idLoc sa.idRem sa.isInitiator = true ∧ p.auth.data ≠ [] ∧
    p.auth.method = authMethodSharedKeyMic

/-- The digest the peer should have sent to be accepted under a profile. -/
def expectedAuth (env : Env) (sa : Sa) (trPrf : TransformData) (p : Profile) : Bytes :=
  pskDigest env.cr trPrf p.auth.data (ikev2SaGenerateAuthmsg env.cr trPrf sa sa.isInitiator)

/-- An SA is authenticated only by the exact digest of some matching profile. -/
def PskSound (env : Env) (km : Ikev2Main) (sa : Sa) (trPrf : TransformData) : Prop :=
  (ikev2SelectProfile env km sa trPrf).1.state = .authenticated →
    ∃ ip ∈ km.profiles, PskCandidate sa ip.2 ∧ sa.peerAuth.data = expectedAuth env sa trPrf ip.2

theorem length_expectedAuth (p : Profile) : (expectedAuth env sa trPrf p).length = trPrf.keyTrunc :=
  env.cr.prf_length _ _ _

/-- Over exactly the length of the second argument, no difference means a prefix. -/
theorem clibMemcmp_eq_false_iff {s1 s2 : Bytes} (h : s2.length ≤ s1.length) :
    clibMemcmp s1 s2 s2.length = false ↔ s2 <+: s1 := by
  unfold clibMemcmp
  split
  · next hbad =>
    have hnil : s2 = [] := by
      rcases hbad with rfl | rfl | hlen
      · exact length_eq_zero_iff.mp (Nat.le_zero.mp h)
      · rfl
      · exact length_eq_zero_iff.mp hlen
    simp [hnil]
  · rw [take_length, decide_eq_false_iff_not, not_not, prefix_iff_eq_take, eq_comm]

theorem length_readFrom (digest : Bytes) (following : ℕ → Byte) (n : ℕ) :
    n ≤ (readFrom digest following n).length := by
  simp only [readFrom, length_append, length_map, length_range]
  omega

/-- What the loop tests of a profile under shared-key authentication. -/
theorem acceptsPeer_psk_iff (hm : sa.peerAuth.method = authMethodSharedKeyMic) (ip : ℕ × Profile) :
    acceptsPeer env sa trPrf ip = true ↔ PskCandidate sa ip.2 ∧
      sa.peerAuth.data <+: readFrom (expectedAuth env sa trPrf ip.2) (env.following ip.1)
        sa.peerAuth.data.length := by
  simp only [acceptsPeer, hm, if_true, Bool.and_eq_true, decide_eq_true_eq, Bool.not_eq_true',
    PskCandidate, expectedAuth, clibMemcmp_eq_false_iff (length_readFrom _ _ _)]
  tauto

/-- Nothing is read behind a digest of the length asked for. -/
theorem readFrom_of_le {digest : Bytes} {following : ℕ → Byte} {n : ℕ} (h : n ≤ digest.length) :
    readFrom digest following n = digest := by
  simp [readFrom, Nat.sub_eq_zero_of_le h]

theorem selectProfile_authenticated_iff (hs : sa.state ≠ .authenticated) :
    (ikev2SelectProfile env km sa trPrf).1.state = .authenticated ↔
      ∃ ip ∈ km.profiles, acceptsPeer env sa trPrf ip = true := by
  rw [ikev2SelectProfile]
  cases hfind : km.profiles.find? (acceptsPeer env sa trPrf) with
  | none =>
    have hnone := find?_eq_none.mp hfind
    refine iff_of_false hs ?_
    rintro ⟨ip, hmem, hacc⟩
    exact hnone ip hmem hacc
  | some ip =>
    exact iff_of_true rfl ⟨ip, mem_of_find?_eq_some hfind, find?_some hfind⟩

/-- Shared-key authentication is sound exactly when the peer sent as many bytes as the prf has, or no
    matching profile's digest, with the memory behind it, begins with what the peer sent. -/
theorem selectProfile_pskSound_iff (hm : sa.peerAuth.method = authMethodSharedKeyMic)
    (hs : sa.state ≠ .authenticated) :
    PskSound env km sa trPrf ↔ sa.peerAuth.data.length = trPrf.keyTrunc ∨
      ∀ ip ∈ km.profiles, PskCandidate sa ip.2 →
        ¬ sa.peerAuth.data <+: readFrom (expectedAuth env sa trPrf ip.2) (env.following ip.1)
          sa.peerAuth.data.length := by
  rw [PskSound, selectProfile_authenticated_iff hs]
  constructor
  · intro hsound
    by_cases hacc : ∃ ip ∈ km.profiles, acceptsPeer env sa trPrf ip = true
    · -- accepted and sound: the data is a digest, so it has the digest's length
      obtain ⟨ip, -, -, hdata⟩ := hsound hacc
      exact Or.inl (by rw [hdata, length_expectedAuth])
    · right
      intro ip hmem hcand hpre
      exact hacc ⟨ip, hmem, (acceptsPeer_psk_iff hm ip).mpr ⟨hcand, hpre⟩⟩
  · rintro hcond ⟨ip, hmem, hacc⟩
    obtain ⟨hcand, hpre⟩ := (acceptsPeer_psk_iff hm ip).mp hacc
    rcases hcond with hlen | hnone
    · refine ⟨ip, hmem, hcand, ?_⟩
      have hdig := @length_expectedAuth env sa trPrf ip.2
      rw [readFrom_of_le (by omega)] at hpre
      exact hpre.eq_of_length (by omega)
    · exact absurd hpre (hnone ip hmem hcand)

/-- The twenty bytes of the right digest are accepted, soundly. -/
theorem selectProfile_pskSound_digest :
    let sa := pskSa (2, replicate 20 0)
    (ikev2SelectProfile Env.zero pskMain sa prfSha1).1.state = .authenticated ∧
      PskSound Env.zero pskMain sa prfSha1 :=
  ⟨by decide, (selectProfile_pskSound_iff (by decide) (by decide)).mpr (Or.inl (by decide))⟩

/-- An AUTH payload that declares eight bytes carries no data, and is accepted. -/
theorem authenticated_by_empty_auth : ∃ auth,
    ikev2ParseAuthPayload [0, 0, 0, 8, 2, 0, 0, 0] = .ok auth ∧
      ¬ PskSound Env.zero pskMain (pskSa auth) prfSha1 := by
  refine ⟨(2, []), by decide, ?_⟩
  intro hsound
  obtain ⟨ip, -, -, hdata⟩ := hsound (by decide)
  have hlen := @length_expectedAuth Env.zero (pskSa (2, [])) prfSha1 ip.2
  rw [← hdata] at hlen
  exact absurd hlen (by decide)

end

end Vpp.Ikev2
