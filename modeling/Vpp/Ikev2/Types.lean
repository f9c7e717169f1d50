import Vpp.Schemes.Memory

/-! The data of `plugins/ikev2` that travels in IKEv2 payloads: `ikev2.h` and `ikev2_priv.h`.

    A vector of the source is a list, and the null vector is the empty list. Numbers that come off the
    wire keep their width; the enumerations of the source that are filled from a received byte without
    a check stay bytes, with their named values below. -/

namespace Vpp.Ikev2
open Vpp.Schemes

/-! ### Named values -/

abbrev payloadNone : Byte := 0
abbrev payloadSa : Byte := 33
abbrev payloadKe : Byte := 34
abbrev payloadIdi : Byte := 35
abbrev payloadIdr : Byte := 36
abbrev payloadAuth : Byte := 39
abbrev payloadNonce : Byte := 40
abbrev payloadNotify : Byte := 41
abbrev payloadDelete : Byte := 42
abbrev payloadVendor : Byte := 43
abbrev payloadTsi : Byte := 44
abbrev payloadTsr : Byte := 45
abbrev payloadSk : Byte := 46

/-- `IKEV2_PAYLOAD_FLAG_CRITICAL`. -/
abbrev payloadFlagCritical : Byte := 0x80

abbrev protocolIke : Byte := 1
abbrev protocolAh : Byte := 2
abbrev protocolEsp : Byte := 3

abbrev transformTypeEncr : Byte := 1
abbrev transformTypePrf : Byte := 2
abbrev transformTypeInteg : Byte := 3
abbrev transformTypeDh : Byte := 4
abbrev transformTypeEsn : Byte := 5

abbrev tsIpv4AddrRange : Byte := 7
abbrev tsIpv6AddrRange : Byte := 8

abbrev authMethodRsaSig : Byte := 1
abbrev authMethodSharedKeyMic : Byte := 2

abbrev notifyMsgUnsupportedCriticalPayload : BitVec 16 := 1
abbrev notifyMsgNoProposalChosen : BitVec 16 := 14
abbrev notifyMsgInvalidKePayload : BitVec 16 := 17
abbrev notifyMsgAuthenticationFailed : BitVec 16 := 24
abbrev notifyMsgNoAdditionalSas : BitVec 16 := 35
abbrev notifyMsgTsUnacceptable : BitVec 16 := 38
abbrev notifyMsgTemporaryFailure : BitVec 16 := 43
abbrev notifyMsgInitialContact : BitVec 16 := 16384
abbrev notifyMsgNatDetectionSourceIp : BitVec 16 := 16388
abbrev notifyMsgNatDetectionDestinationIp : BitVec 16 := 16389
abbrev notifyMsgRekeySa : BitVec 16 := 16393

/-! ### Proposals -/

/-- `ikev2_sa_transform_t`, as negotiated: the key sizes of the struct are only ever read from the
    table of supported transforms. -/
structure SaTransform where
  type : Byte
  transformId : BitVec 16
  attrs : Bytes
  deriving DecidableEq

/-- `ikev2_sa_proposal_t`. -/
structure SaProposal where
  proposalNum : Byte
  protocolId : Byte
  spi : BitVec 64
  transforms : List SaTransform
  deriving DecidableEq

/-! ### Traffic selectors -/

/-- `ip_address_t`, in network byte order. -/
inductive IpAddress where
  | ip4 (addr : BitVec 32)
  | ip6 (addr : BitVec 128)
  deriving DecidableEq

/-- The bytes of an address as `ip_address_copy_addr` copies them. -/
def IpAddress.bytes : IpAddress → Bytes
  | .ip4 a => toBe 4 a.toNat
  | .ip6 a => toBe 16 a.toNat

/-- `ikev2_ts_t`. The source's `selector_len` is never read or written. -/
structure Ts where
  tsType : Byte
  protocolId : Byte
  startPort : BitVec 16
  endPort : BitVec 16
  startAddr : IpAddress
  endAddr : IpAddress
  deriving DecidableEq

/-- `ikev2_ts_cmp`; `ip_address_cmp` is zero exactly on equal addresses of one family. -/
def ikev2TsCmp (ts1 ts2 : Ts) : Bool :=
  decide (ts1.tsType = ts2.tsType) && decide (ts1.protocolId = ts2.protocolId) &&
    decide (ts1.startPort = ts2.startPort) && decide (ts1.endPort = ts2.endPort) &&
    decide (ts1.startAddr = ts2.startAddr) && decide (ts1.endAddr = ts2.endAddr)

/-! ### Other payloads -/

/-- `ikev2_id_t`. -/
structure Id where
  type : Byte
  data : Bytes
  deriving DecidableEq

/-- `ikev2_auth_t`; the public key of a certificate is an index of the crypto library. -/
structure Auth where
  method : Byte
  data : Bytes
  key : ℕ
  deriving DecidableEq

/-- `ikev2_notify_t`. -/
structure Notify where
  msgType : BitVec 16
  protocolId : Byte
  spi : BitVec 32
  data : Bytes
  deriving DecidableEq

/-- `ikev2_delete_t`. -/
structure Delete where
  protocolId : Byte
  spi : BitVec 32
  deriving DecidableEq

end Vpp.Ikev2
