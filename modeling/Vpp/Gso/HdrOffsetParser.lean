import Vpp.Vlib.Buffer

/-! Where the headers of a packet are (`vnet/gso/hdr_offset_parser.h`).

    All offsets count from the current data of the first buffer. For a tunnel they are found a second time, behind the
    outer headers, and count from there:

        | L2 | IP | TCP | payload              l3, l4: from here
        ^
        | L2 | IP | UDP | VXLAN | L2 | IP | TCP | payload
                                ^              l3, l4: from here -/

namespace Vpp.Gso
open Vpp.Schemes Vpp.Vlib

/-- `n` bytes of the current data, from byte `k` on, as a number in network order. -/
def be (b : VlibBuffer) (k n : ℕ) : ℕ := ofBe ((List.range n).map fun i => b.current (k + i))

/-- The fields of `vnet_buffer (b)` and the bits of `b->flags` that are read here. -/
structure VnetBuffer where
  swIfIndexRx : BitVec 32
  swIfIndexTx : BitVec 32
  /-- `ip.save_rewrite_length` -/
  saveRewriteLength : ℕ
  /-- `VNET_BUFFER_F_IS_IP4` -/
  isIp4 : Bool
  /-- `VNET_BUFFER_F_IS_IP6` -/
  isIp6 : Bool
  /-- `VNET_BUFFER_F_GSO` -/
  gso : Bool
  /-- `VNET_BUFFER_F_OFFLOAD` -/
  offload : Bool
deriving DecidableEq

/-- `GHO_F_TUNNEL`: at most one of its bits is set. -/
inductive GhoTunnel where
  | vxlan | gre | ipip | ipip6 | geneve
deriving DecidableEq

inductive IpVersion where
  | ip4 | ip6
deriving DecidableEq

/-- `generic_header_offset_t`, without the outer offsets. -/
structure GenericHeaderOffset where
  l3HdrOffset : ℕ
  l4HdrOffset : ℕ
  l4HdrSz : ℕ
  hdrSz : ℕ
  /-- `GHO_F_IP4`, `GHO_F_IP6` -/
  ip : Option IpVersion
  /-- `GHO_F_TCP` -/
  tcp : Bool
  tunnel : Option GhoTunnel
deriving DecidableEq

def ip4HeaderBytes (b : VlibBuffer) (l3 : ℕ) : ℕ := 4 * (be b l3 1 % 16)

def tcpHeaderBytes (b : VlibBuffer) (l4 : ℕ) : ℕ := 4 * (be b (l4 + 12) 1 / 16)

def ethernetFrameIsTagged (type : ℕ) : Bool :=
  type == 0x8100 || type == 0x88a8 || type == 0x9100 || type == 0x9200

/-- The type of an Ethernet frame behind up to two tags, and the size of its header. -/
def ethernetType (b : VlibBuffer) (base : ℕ) : ℕ × ℕ :=
  let ethertype := be b (base + 12) 2
  if ethernetFrameIsTagged ethertype then
    let ethertype := be b (base + 16) 2
    if ethertype = 0x8100 then (be b (base + 20) 2, 22) else (ethertype, 18)
  else (ethertype, 14)

/-- The protocol behind an IP header, and where its header begins. -/
def ipNextHeader (b : VlibBuffer) (l3 : ℕ) : IpVersion → ℕ × ℕ
  | .ip4 => (be b (l3 + 9) 1, l3 + ip4HeaderBytes b l3)
  | .ip6 => (be b (l3 + 6) 1, l3 + 40)

/-- `vnet_generic_outer_header_parser_inline` -/
def vnetGenericOuterHeaderParser (b : VlibBuffer) (saveRewriteLength : ℕ) (isL2 : Bool) (version : IpVersion) :
    GenericHeaderOffset :=
  let l2HdrSz := if isL2 then (ethernetType b 0).2 else saveRewriteLength
  let (proto, l4) := ipNextHeader b l2HdrSz version
  let gho := { l3HdrOffset := l2HdrSz, l4HdrOffset := l4, l4HdrSz := 0, hdrSz := l4, ip := some version
               tcp := false, tunnel := none : GenericHeaderOffset }
  if proto = ipProtocolTcp then
    { gho with l4HdrSz := tcpHeaderBytes b l4, hdrSz := l4 + tcpHeaderBytes b l4, tcp := true }
  else if proto = ipProtocolUdp then
    if be b (l4 + 2) 2 = 4789 then { gho with l4HdrSz := 8, hdrSz := 8 + (l4 + 8), tunnel := some .vxlan }
    else if be b (l4 + 2) 2 = 6081 then { gho with l4HdrSz := 8, hdrSz := l4 + 8, tunnel := some .geneve }
    else { gho with l4HdrSz := 8, hdrSz := l4 + 8 }
  else if proto = 4 then { gho with tunnel := some .ipip }
  else if proto = 41 then { gho with tunnel := some .ipip6 }
  else if proto = 47 then { gho with tunnel := some .gre }
  else gho

/-- The end of the parsers for inner headers. `l3` counts from `base`. -/
def innerHeader (b : VlibBuffer) (base l3 : ℕ) (version : Option IpVersion) (tunnel : GhoTunnel) :
    GenericHeaderOffset :=
  match version with
  | none => { l3HdrOffset := l3, l4HdrOffset := 0, l4HdrSz := 0, hdrSz := 0, ip := none, tcp := false
              tunnel := some tunnel }
  | some v =>
    let (proto, next) := ipNextHeader b (base + l3) v
    let l4 := next - base
    let l4HdrSz := if proto = ipProtocolTcp then tcpHeaderBytes b next else if proto = ipProtocolUdp then 8 else 0
    { l3HdrOffset := l3, l4HdrOffset := l4, l4HdrSz := l4HdrSz, hdrSz := l4 + l4HdrSz, ip := some v
      tcp := proto == ipProtocolTcp, tunnel := some tunnel }

/-- `vnet_generic_inner_header_parser_inline`; those for GRE and GENEVE do nothing. -/
def vnetGenericInnerHeaderParser (b : VlibBuffer) (gho : GenericHeaderOffset) : GhoTunnel → GenericHeaderOffset
  | .vxlan =>
    let (ethertype, l2HdrSz) := ethernetType b gho.hdrSz
    innerHeader b gho.hdrSz l2HdrSz
      (if ethertype = 0x800 then some .ip4 else if ethertype = 0x86dd then some .ip6 else none) .vxlan
  | .ipip => innerHeader b gho.hdrSz 0 (some .ip4) .ipip
  | .ipip6 => innerHeader b gho.hdrSz 0 (some .ip6) .ipip6
  | .gre => gho
  | .geneve => gho

def vnetGenericHeaderOffsetParser (b : VlibBuffer) (saveRewriteLength : ℕ) (isL2 : Bool) (version : IpVersion) :
    GenericHeaderOffset :=
  let gho := vnetGenericOuterHeaderParser b saveRewriteLength isL2 version
  match gho.tunnel with
  | none => gho
  | some tunnel => vnetGenericInnerHeaderParser b gho tunnel

/-- Only the bytes of the buffer are read. -/
theorem be_congr {b b' : VlibBuffer} (h : b'.current = b.current) (k n : ℕ) : be b' k n = be b k n := by
  rw [be, be, h]

theorem vnetGenericHeaderOffsetParser_congr {b b' : VlibBuffer} (h : b'.current = b.current) (saveRewriteLength : ℕ)
    (isL2 : Bool) (version : IpVersion) :
    vnetGenericHeaderOffsetParser b' saveRewriteLength isL2 version =
      vnetGenericHeaderOffsetParser b saveRewriteLength isL2 version := by
  have hbe : be b' = be b := funext fun k => funext fun n => be_congr h k n
  have hnext : ipNextHeader b' = ipNextHeader b := by
    funext l3 v
    cases v <;> simp only [ipNextHeader, ip4HeaderBytes, hbe]
  simp only [vnetGenericHeaderOffsetParser, vnetGenericOuterHeaderParser, vnetGenericInnerHeaderParser, innerHeader,
    hnext, tcpHeaderBytes, ethernetType, hbe]

theorem innerHeader_tunnel (b : VlibBuffer) (base l3 : ℕ) (version : Option IpVersion) (tunnel : GhoTunnel) :
    (innerHeader b base l3 version tunnel).tunnel = some tunnel := by
  cases version with
  | none => rfl
  | some v => rfl

theorem vnetGenericInnerHeaderParser_tunnel {b : VlibBuffer} {gho : GenericHeaderOffset} {tunnel : GhoTunnel}
    (h : gho.tunnel = some tunnel) : (vnetGenericInnerHeaderParser b gho tunnel).tunnel = some tunnel := by
  cases tunnel with
  | vxlan => exact innerHeader_tunnel ..
  | ipip => exact innerHeader_tunnel ..
  | ipip6 => exact innerHeader_tunnel ..
  | gre => exact h
  | geneve => exact h

/-- The offsets of a TCP packet outside tunnels. -/
def tcpOffsets (b : VlibBuffer) (saveRewriteLength : ℕ) (isL2 : Bool) (version : IpVersion) : GenericHeaderOffset :=
  let l2HdrSz := if isL2 then (ethernetType b 0).2 else saveRewriteLength
  let l4 := (ipNextHeader b l2HdrSz version).2
  { l3HdrOffset := l2HdrSz, l4HdrOffset := l4, l4HdrSz := tcpHeaderBytes b l4, hdrSz := l4 + tcpHeaderBytes b l4
    ip := some version, tcp := true, tunnel := none }

section
variable {b : VlibBuffer} {n : ℕ} {isL2 : Bool} {v : IpVersion}

theorem vnetGenericHeaderOffsetParser_of_tcp
    (h : (ipNextHeader b (if isL2 then (ethernetType b 0).2 else n) v).1 = ipProtocolTcp) :
    vnetGenericHeaderOffsetParser b n isL2 v = tcpOffsets b n isL2 v := by
  simp only [vnetGenericHeaderOffsetParser, vnetGenericOuterHeaderParser, h, if_true]
  rfl

/-- Outside tunnels TCP comes right behind the IP header. -/
theorem ipNextHeader_of_tcp (htcp : (vnetGenericHeaderOffsetParser b n isL2 v).tcp = true)
    (htunnel : (vnetGenericHeaderOffsetParser b n isL2 v).tunnel = none) :
    (ipNextHeader b (if isL2 then (ethernetType b 0).2 else n) v).1 = ipProtocolTcp := by
  have houter : vnetGenericHeaderOffsetParser b n isL2 v = vnetGenericOuterHeaderParser b n isL2 v := by
    unfold vnetGenericHeaderOffsetParser at htunnel ⊢
    cases ht : (vnetGenericOuterHeaderParser b n isL2 v).tunnel with
    | none => simp only [ht]
    | some t =>
      simp only [ht] at htunnel
      rw [vnetGenericInnerHeaderParser_tunnel ht] at htunnel
      cases htunnel
  rw [houter] at htcp
  unfold vnetGenericOuterHeaderParser at htcp
  generalize (if isL2 = true then (ethernetType b 0).2 else n) = l2 at htcp ⊢
  dsimp only at htcp
  by_contra hproto
  rw [if_neg hproto] at htcp
  repeat' split at htcp
  all_goals exact absurd htcp Bool.false_ne_true

end

end Vpp.Gso
