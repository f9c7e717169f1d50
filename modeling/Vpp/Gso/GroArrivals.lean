import Vpp.Gso.GroPackets

/-! The packets that come to the flow table.

    What a packet is, is read off it as it comes: its connection, its sequence number, and its payload, which ends
    where the IP header says that the packet ends.

        | L2 | IP | TCP | payload | padding
             ^          ^         ^
             l3         hdr_sz    ipEnd

    `SoundTcp` says which TCP packets the table is made for. For these, `gro_get_packet_data` finds exactly that payload
    (`groGetPacketData_cases`). -/

namespace Vpp.Gso
open Vpp.Schemes Vpp.Vlib List

/-- The interfaces, addresses and ports of a packet. -/
def connection (b : VlibBuffer) (v : VnetBuffer) (isL2 : Bool) : Option IpVersion × GroFlowKey :=
  let gho := headerOffsets b v isL2
  (gho.ip, groGetFlowFromPacket b v gho (gho.ip.getD .ip4))

/-- Where the packet ends, by its IP header. -/
def ipEnd (b : VlibBuffer) (gho : GenericHeaderOffset) : ℕ :=
  match gho.ip with
  | some .ip4 => gho.l3HdrOffset + be b (gho.l3HdrOffset + 2) 2
  | some .ip6 => gho.l3HdrOffset + 40 + be b (gho.l3HdrOffset + 4) 2
  | none => 0

/-- A packet as it is handed over, at the time `now`. -/
structure Arrival where
  bi : ℕ
  /-- its buffers -/
  chain : List ℕ
  buffer : ℕ → VlibBuffer
  vnet : VnetBuffer
  /-- what the validation of its checksum will come to -/
  checksumCorrect : Bool
  now : ℕ

namespace Arrival

variable (isL2 : Bool) (a : Arrival)

def first : VlibBuffer := a.buffer a.bi
def contents : Bytes := a.chain.flatMap fun i => (a.buffer i).bytes
def gho : GenericHeaderOffset := headerOffsets a.first a.vnet isL2
def connection : Option IpVersion × GroFlowKey := Gso.connection a.first a.vnet isL2
def flowKey : GroFlowKey := (a.connection isL2).2
def seqNumber : ℕ := tcpSeqNumber a.first (a.gho isL2).l4HdrOffset
def ipEnd : ℕ := Gso.ipEnd a.first (a.gho isL2)
def payload : Bytes := (a.contents.take (a.ipEnd isL2)).drop (a.gho isL2).hdrSz

end Arrival

/-- A TCP packet outside tunnels, with headers of at least their least sizes, whose length is what its IP header says,
    unless it is padded to no more than 64 bytes in one buffer; and whose interfaces and addresses are not all zero. -/
@[mk_iff]
structure SoundTcp (isL2 : Bool) (a : Arrival) : Prop where
  plain : (a.gho isL2).tunnel = none
  ipHeader : (a.gho isL2).l3HdrOffset + 20 ≤ (a.gho isL2).l4HdrOffset
  tcpHeader : 20 ≤ (a.gho isL2).l4HdrSz
  length : a.ipEnd isL2 = a.contents.length ∨ (a.contents.length ≤ groPaddedPacketSize ∧ a.chain = [a.bi] ∧
    (a.gho isL2).hdrSz ≤ a.ipEnd isL2 ∧ a.ipEnd isL2 ≤ a.contents.length)
  key : groFlowIsEqual (a.flowKey isL2) GroFlowKey.zero = false

instance (isL2 : Bool) (a : Arrival) : Decidable (SoundTcp isL2 a) := decidable_of_iff' _ (soundTcp_iff isL2 a)

/-- Whatever is not TCP may be anything. -/
def Sound (isL2 : Bool) (a : Arrival) : Prop := (a.gho isL2).tcp = true → SoundTcp isL2 a
deriving Decidable

/-- The packet is in its buffers. -/
structure Placed (vm : Vm) (a : Arrival) : Prop where
  whole : Whole vm a.bi a.chain
  buffer : ∀ i ∈ a.chain, vm.buffer i = a.buffer i

/-- The packet is still what it was, without its padding perhaps. -/
structure Kept (isL2 : Bool) (vm : Vm) (a : Arrival) (vm' : Vm) : Prop where
  same : SameOutside a.chain vm vm'
  packet : Packet vm' a.bi a.chain
  contents : vm'.contents a.chain = a.contents ∨ (a.contents.length ≤ groPaddedPacketSize ∧
    (a.gho isL2).tcp = true ∧ vm'.contents a.chain = a.contents.take (a.ipEnd isL2))

/-- A TCP packet that may be coalesced. -/
structure Ready (isL2 : Bool) (a : Arrival) (pktLen : ℕ) (vm' : Vm) : Prop where
  sound : SoundTcp isL2 a
  tcp : (a.gho isL2).tcp = true
  whole : Whole vm' a.bi a.chain
  current : (vm'.buffer a.bi).current = a.first.current
  contents : vm'.contents a.chain = a.contents.take (a.ipEnd isL2)
  length : pktLen = a.ipEnd isL2
  le : pktLen ≤ a.contents.length
  lt : pktLen < tcpMaxGsoSz
  headers : (a.gho isL2).hdrSz ≤ (vm'.buffer a.bi).currentLength
  unpadded : groPaddedPacketSize < pktLen → SameBytes a.first (vm'.buffer a.bi) ∧ vm'.contents a.chain = a.contents

variable {isL2 : Bool} {a : Arrival} {vm vm' : Vm}

theorem Placed.contents (h : Placed vm a) : vm.contents a.chain = a.contents := by
  rw [Vm.contents, Arrival.contents]
  exact flatMap_congr fun i hi => by rw [h.buffer i hi]

theorem Placed.first (h : Placed vm a) : vm.buffer a.bi = a.first := h.buffer a.bi h.whole.packet.head_mem

/-- The offsets of a packet the table is made for. -/
theorem SoundTcp.offsets (h : SoundTcp isL2 a) (htcp : (a.gho isL2).tcp = true) :
    (a.gho isL2).hdrSz = (a.gho isL2).l4HdrOffset + (a.gho isL2).l4HdrSz ∧
    (((a.gho isL2).ip = some .ip4 ∧
        (a.gho isL2).l4HdrOffset = (a.gho isL2).l3HdrOffset + ip4HeaderBytes a.first (a.gho isL2).l3HdrOffset) ∨
      ((a.gho isL2).ip = some .ip6 ∧ (a.gho isL2).l4HdrOffset = (a.gho isL2).l3HdrOffset + 40)) := by
  have hplain := h.plain
  unfold Arrival.gho headerOffsets at htcp hplain ⊢
  cases hv : groIsIp4OrIp6Packet a.first a.vnet isL2 with
  | none => simp [hv] at htcp
  | some v =>
    simp only [hv] at htcp hplain ⊢
    rw [vnetGenericHeaderOffsetParser_of_tcp (ipNextHeader_of_tcp htcp hplain)]
    refine ⟨rfl, ?_⟩
    cases v with
    | ip4 => exact .inl ⟨rfl, rfl⟩
    | ip6 => exact .inr ⟨rfl, rfl⟩

/-- Without padding, the length of the packet is computed right. -/
theorem SoundTcp.padded_len (h : SoundTcp isL2 a) (htcp : (a.gho isL2).tcp = true)
    (hle : (a.gho isL2).hdrSz ≤ a.ipEnd isL2) (hlt : a.ipEnd isL2 < 2 ^ 32) :
    u32 ((a.gho isL2).hdrSz + tcpPayloadLen a.first (a.gho isL2)) = a.ipEnd isL2 := by
  obtain ⟨hhdr, ⟨hip, hl4⟩ | ⟨hip, hl4⟩⟩ := h.offsets htcp
  · simp only [Arrival.ipEnd, ipEnd, hip, tcpPayloadLen, if_pos, u32] at hle hlt ⊢
    omega
  · simp only [Arrival.ipEnd, ipEnd, hip, tcpPayloadLen, u32] at hle hlt ⊢
    rw [if_neg (by decide)]
    omega

theorem Whole.head_le {bi : ℕ} {l : List ℕ} (h : Whole vm bi l) :
    (vm.buffer bi).currentLength ≤ (vm.contents l).length := by
  obtain ⟨rest, rfl⟩ := h.packet.exists_cons
  rw [contents_cons, length_append, length_bytes]
  exact Nat.le_add_right _ _

theorem Placed.kept_counted (h : Placed vm a) : Kept isL2 vm a (countLength vm a.bi) where
  same := (countLength_from vm a.bi).same.mono (by simpa using h.whole.packet.head_mem)
  packet := (countLength_from vm a.bi).packet h.whole.packet
  contents := .inl (((countLength_from vm a.bi).contents _).trans h.contents)

/-- Of a packet in one buffer the padding is cut off. -/
theorem Placed.cut {n : ℕ} (h : Placed vm a) (hchain : a.chain = [a.bi]) (hn : n ≤ a.contents.length) :
    Whole ((countLength vm a.bi).modify a.bi fun b => { b with currentLength := n }) a.bi a.chain ∧
    ((countLength vm a.bi).modify a.bi fun b => { b with currentLength := n }).contents a.chain =
      a.contents.take n := by
  have hfrom := countLength_from vm a.bi
  have hpacket : Packet ((countLength vm a.bi).modify a.bi fun b => { b with currentLength := n }) a.bi a.chain :=
    (hfrom.packet h.whole.packet).modify rfl rfl
  have hcontents : ((countLength vm a.bi).modify a.bi fun b => { b with currentLength := n }).contents a.chain =
      a.contents.take n := by
    have hone := h.contents
    have hbytes := hfrom.bytes a.bi
    rw [hchain, contents_cons, contents_nil, append_nil] at hone ⊢
    rw [buffer_modify_self, bytes_cut, hbytes.bytes, hone]
    rw [hbytes.length, ← length_bytes, hone]
    exact hn
  refine ⟨⟨hpacket, ?_, ?_⟩, hcontents⟩
  · rw [hchain] at hpacket ⊢
    rw [hpacket.lengthInChain_eq, hpacket.rest_eq_nil.mpr rfl, contents_cons, contents_nil]
    simp
  · rw [hcontents, length_take]
    have := h.whole.lt
    rw [h.contents] at this
    omega

section
variable (h : Placed vm a) (hs : SoundTcp isL2 a) (htcp : (a.gho isL2).tcp = true)
  (hhdr : (a.gho isL2).hdrSz < a.first.currentLength) (hlt : a.contents.length < tcpMaxGsoSz)
include h hs htcp hhdr hlt

theorem Placed.ready (heq : a.ipEnd isL2 = a.contents.length) :
    Ready isL2 a a.contents.length (countLength vm a.bi) := by
  have hfrom := countLength_from vm a.bi
  have hcontents : (countLength vm a.bi).contents a.chain = a.contents := by rw [hfrom.contents, h.contents]
  have hbytes : SameBytes a.first ((countLength vm a.bi).buffer a.bi) := by rw [← h.first]; exact hfrom.bytes a.bi
  exact
    { sound := hs, tcp := htcp, whole := h.whole.countLength, current := hbytes.current
      contents := by rw [hcontents, heq, take_length]
      length := heq.symm, le := le_refl _, lt := hlt
      headers := by rw [hbytes.length]; exact le_of_lt hhdr
      unpadded := fun _ => ⟨hbytes, hcontents⟩ }

omit hhdr in
theorem Placed.ready_cut (hpad : a.contents.length ≤ groPaddedPacketSize)
    (hshort : a.ipEnd isL2 < a.contents.length) :
    Kept isL2 vm a ((countLength vm a.bi).modify a.bi fun b => { b with currentLength := a.ipEnd isL2 }) ∧
    Ready isL2 a (a.ipEnd isL2)
      ((countLength vm a.bi).modify a.bi fun b => { b with currentLength := a.ipEnd isL2 }) := by
  obtain ⟨hchain, hle⟩ : a.chain = [a.bi] ∧ (a.gho isL2).hdrSz ≤ a.ipEnd isL2 := by
    rcases hs.length with heq | ⟨-, hchain, hle, -⟩
    · exact absurd heq (ne_of_lt hshort)
    · exact ⟨hchain, hle⟩
  have hfrom := countLength_from vm a.bi
  obtain ⟨hwhole, hcontents⟩ := h.cut hchain (le_of_lt hshort)
  have hsame : SameOutside a.chain vm
      ((countLength vm a.bi).modify a.bi fun b => { b with currentLength := a.ipEnd isL2 }) := by
    rw [hchain]
    exact (hfrom.same.trans (SameOutside.modify _ _)).mono (by simp)
  refine ⟨⟨hsame, hwhole.packet, .inr ⟨hpad, htcp, hcontents⟩⟩, ?_⟩
  exact
    { sound := hs, tcp := htcp, whole := hwhole, contents := hcontents
      current := by
        have hcurrent := (hfrom.bytes a.bi).current
        rw [h.first] at hcurrent
        rw [buffer_modify_self, ← hcurrent]
        rfl
      length := rfl, le := le_of_lt hshort, lt := lt_trans hshort hlt
      headers := by rw [buffer_modify_self]; exact hle
      unpadded := fun hc => absurd (lt_trans hc hshort) (not_lt.mpr hpad) }

/-- `gro_fix_padded_packet_len` cuts off what is behind the IP packet. -/
theorem Placed.fixPadded (hpad : a.contents.length ≤ groPaddedPacketSize) :
    Kept isL2 vm a (groFixPaddedPacketLen (countLength vm a.bi) a.bi (a.gho isL2) a.contents.length).1 ∧
    Ready isL2 a (groFixPaddedPacketLen (countLength vm a.bi) a.bi (a.gho isL2) a.contents.length).2
      (groFixPaddedPacketLen (countLength vm a.bi) a.bi (a.gho isL2) a.contents.length).1 := by
  have hfirst : a.first.currentLength ≤ a.contents.length := by
    have := h.whole.head_le
    rwa [h.first, h.contents] at this
  obtain ⟨hle, hend⟩ : (a.gho isL2).hdrSz ≤ a.ipEnd isL2 ∧ a.ipEnd isL2 ≤ a.contents.length := by
    rcases hs.length with heq | ⟨-, -, hle, hend⟩
    · exact ⟨by omega, le_of_eq heq⟩
    · exact ⟨hle, hend⟩
  simp only [groPaddedPacketSize] at hpad
  have hpadded := hs.padded_len htcp hle (by omega)
  have hcurrent : ((countLength vm a.bi).buffer a.bi).current = a.first.current := by
    rw [((countLength_from vm a.bi).bytes a.bi).current, h.first]
  have hfix : tcpPayloadLen ((countLength vm a.bi).buffer a.bi) (a.gho isL2) = tcpPayloadLen a.first (a.gho isL2) := by
    simp only [tcpPayloadLen, ip4HeaderBytes, be_congr hcurrent]
  rw [groFixPaddedPacketLen, hfix, hpadded, Nat.mod_eq_of_lt (by omega : a.ipEnd isL2 < 2 ^ 16)]
  split
  · next hshort => exact h.ready_cut hs htcp hlt hpad hshort
  · next hge => exact ⟨h.kept_counted, h.ready hs htcp hhdr hlt (by omega)⟩

end

/-- What happens to other buffers does not matter. -/
theorem Kept.frame {m : List ℕ} (h : Kept isL2 vm a vm') {vm'' : Vm} (hs : SameOutside m vm' vm'')
    (hd : a.chain.Disjoint m) : Kept isL2 vm'' a vm'' where
  same := SameOutside.refl _ _
  packet := h.packet.congr hs hd
  contents := by rw [hs.contents hd]; exact h.contents

theorem Ready.congr {m : List ℕ} {pktLen : ℕ} (h : Ready isL2 a pktLen vm) (hs : SameOutside m vm vm')
    (hd : a.chain.Disjoint m) : Ready isL2 a pktLen vm' := by
  have hbuffer : vm'.buffer a.bi = vm.buffer a.bi := hs.buffer a.bi (hd h.whole.packet.head_mem)
  have hcontents : vm'.contents a.chain = vm.contents a.chain := hs.contents hd
  exact { h with
    whole := h.whole.congr hs hd
    current := by rw [hbuffer]; exact h.current
    contents := by rw [hcontents]; exact h.contents
    headers := by rw [hbuffer]; exact h.headers
    unpadded := by rw [hbuffer, hcontents]; exact h.unpadded }

theorem Ready.payload_length {pktLen : ℕ} (h : Ready isL2 a pktLen vm) :
    u32 (pktLen - (a.gho isL2).hdrSz) = (a.payload isL2).length := by
  have hhdr := h.headers.trans h.whole.head_le
  have hlt := h.lt
  simp only [tcpMaxGsoSz] at hlt
  rw [h.contents] at hhdr
  rw [Arrival.payload, length_drop, length_take, ← h.length, u32]
  rw [length_take, ← h.length] at hhdr
  have := h.le
  omega

/-- What `gro_get_packet_data` makes of a packet that it does not turn down. -/
theorem groGetPacketData_cases {checksumCorrect : Bool} {d : PacketData} (h : Placed vm a) (hsound : Sound isL2 a)
    (hd : groGetPacketData vm a.vnet a.bi isL2 checksumCorrect = some d) :
    d.gho = a.gho isL2 ∧ d.flowKey = a.flowKey isL2 ∧ Kept isL2 vm a d.vm ∧
      (d.pktLen = 0 ∨ Ready isL2 a d.pktLen d.vm) := by
  unfold groGetPacketData at hd
  simp only [h.first] at hd
  split at hd
  · cases hd
  next htcp =>
  split at hd
  · cases hd
  next hbad =>
  split at hd
  · cases hd
  next version hip =>
  split at hd
  · cases hd
  have hgho : headerOffsets a.first a.vnet isL2 = a.gho isL2 := rfl
  rw [hgho] at hd htcp hbad hip
  have htcp : (a.gho isL2).tcp = true := by simpa using htcp
  have hs : SoundTcp isL2 a := hsound htcp
  have hkey : groGetFlowFromPacket a.first a.vnet (a.gho isL2) version = a.flowKey isL2 := by
    rw [Arrival.flowKey, Arrival.connection, connection, hgho]
    simp only [hip, Option.getD_some]
  have hlen : vm.vlibBufferLengthInChain a.bi = a.contents.length := by rw [h.whole.length, h.contents]
  have hhdr : (a.gho isL2).hdrSz < a.first.currentLength := by
    simp only [groIsBadPacket, Bool.or_eq_true, decide_eq_true_eq, not_or, not_le] at hbad
    exact hbad.1
  rw [hkey, hlen] at hd
  split at hd
  · cases hd
    exact ⟨rfl, rfl, h.kept_counted, .inl rfl⟩
  next hmax =>
  have hlt : a.contents.length < tcpMaxGsoSz := not_le.mp hmax
  split at hd
  · next hpad =>
    obtain ⟨hkept, hready⟩ := h.fixPadded hs htcp hhdr hlt hpad
    cases hd
    exact ⟨rfl, rfl, hkept, .inr hready⟩
  · next hpad =>
    cases hd
    have heq : a.ipEnd isL2 = a.contents.length := by
      rcases hs.length with heq | ⟨hle, -⟩
      · exact heq
      · exact absurd hle hpad
    exact ⟨rfl, rfl, h.kept_counted, .inr (h.ready hs htcp hhdr hlt heq)⟩

end Vpp.Gso
