import Vpp.Gso.HdrOffsetParser

/-! Generic receive offload with a flow table (`vnet/gso/gro.h`, `vnet/gso/gro_func.h`).

    The table has sixteen slots. A slot holds one packet, which may have been put together from several: the buffers of
    the later ones are chained behind those of the first, without their headers.

        slot:  buffer_index ──▶ | headers | payload 1 | ──▶ | payload 2 | ──▶ | payload 3 |

    A packet that comes is returned at once, stored, or chained behind the packet of its slot; the packet of a slot is
    returned when it has become too large, on a `PSH` or a gap, or when its time is over. -/

namespace Vpp.Gso
open Vpp.Schemes Vpp.Vlib List

/-! ### Flows -/

/-- The structure in `gro_flow_key_t`, a union. -/
structure GroFlowKey where
  swIfIndexRx : BitVec 32
  swIfIndexTx : BitVec 32
  srcAddress : BitVec 128
  dstAddress : BitVec 128
  srcPort : BitVec 16
  dstPort : BitVec 16
deriving DecidableEq

/-- The member `flow_data[5]` of the union: the first forty bytes of the structure. -/
def GroFlowKey.flowData (k : GroFlowKey) : List (BitVec 64) :=
  [k.swIfIndexTx ++ k.swIfIndexRx, k.srcAddress.extractLsb' 64 64, k.srcAddress.extractLsb' 0 64,
    k.dstAddress.extractLsb' 64 64, k.dstAddress.extractLsb' 0 64]

/-- The member `flow_data_u32` of the union, which begins where the others do: not the ports. -/
def GroFlowKey.flowDataU32 (k : GroFlowKey) : BitVec 32 := k.swIfIndexRx

def GroFlowKey.zero : GroFlowKey := ⟨0, 0, 0, 0, 0, 0⟩

structure GroFlow where
  flowKey : GroFlowKey
  nextTimeoutTs : ℕ
  lastAckNumber : ℕ
  bufferIndex : ℕ
  nBuffers : ℕ

/-- What `clib_memset` leaves of a flow. -/
def GroFlow.zero : GroFlow := ⟨GroFlowKey.zero, 0, 0, 0, 0⟩

def groFlowTableMaxSize : ℕ := 16
def groFlowNBuffers : ℕ := 64
def groMinPacketSize : ℕ := 256
def groPaddedPacketSize : ℕ := 64
def tcpMaxGsoSz : ℕ := 65536
/-- `GRO_FLOW_TIMEOUT`, in nanoseconds -/
def groFlowTimeout : ℕ := 10000

/-- `gro_flow_table_t`, without its statistics and what only its scheduling reads. -/
structure GroFlowTable where
  isEnable : Bool
  isL2 : Bool
  flowTableSize : ℕ
  groFlow : Fin groFlowTableMaxSize → GroFlow

/-- `gro_flow_set_flow_key`: the members of the union that are copied do not cover the ports. -/
def groFlowSetFlowKey (flow : GroFlow) (src : GroFlowKey) : GroFlow :=
  { flow with flowKey := { src with srcPort := flow.flowKey.srcPort, dstPort := flow.flowKey.dstPort } }

def groFlowIsEqual (first second : GroFlowKey) : Bool :=
  first.flowData == second.flowData && first.flowDataU32 == second.flowDataU32

def groFlowStorePacket (flow : GroFlow) (bi0 : ℕ) : GroFlow :=
  { flow with bufferIndex := if flow.nBuffers = 0 then bi0 else flow.bufferIndex, nBuffers := flow.nBuffers + 1 }

namespace GroFlowTable

def setFlow (table : GroFlowTable) (i : Fin groFlowTableMaxSize) (flow : GroFlow) : GroFlowTable :=
  { table with groFlow := Function.update table.groFlow i flow }

/-- `gro_flow_table_new_flow` -/
def newFlow (table : GroFlowTable) : Option (Fin groFlowTableMaxSize × GroFlowTable) :=
  if table.flowTableSize < groFlowTableMaxSize then
    ((finRange groFlowTableMaxSize).find? fun i => (table.groFlow i).nBuffers == 0).map fun i =>
      (i, { table with flowTableSize := table.flowTableSize + 1 })
  else none

/-- `gro_flow_table_get_flow` -/
def getFlow (table : GroFlowTable) (flowKey : GroFlowKey) : Option (Fin groFlowTableMaxSize) :=
  (finRange groFlowTableMaxSize).find? fun i => groFlowIsEqual flowKey (table.groFlow i).flowKey

/-- `gro_flow_table_find_or_add_flow` -/
def findOrAddFlow (table : GroFlowTable) (flowKey : GroFlowKey) : Option (Fin groFlowTableMaxSize × GroFlowTable) :=
  match table.getFlow flowKey with
  | some i => some (i, table)
  | none => table.newFlow.map fun (i, table) => (i, table.setFlow i (groFlowSetFlowKey (table.groFlow i) flowKey))

/-- `gro_flow_table_reset_flow` -/
def resetFlow (table : GroFlowTable) (i : Fin groFlowTableMaxSize) : GroFlowTable :=
  if table.flowTableSize > 0 then
    { table.setFlow i GroFlow.zero with flowTableSize := table.flowTableSize - 1 }
  else table

end GroFlowTable

/-! ### Packets -/

def groIsIp4OrIp6Packet (b : VlibBuffer) (v : VnetBuffer) (isL2 : Bool) : Option IpVersion :=
  if v.isIp4 then some .ip4
  else if v.isIp6 then some .ip6
  else if isL2 then
    let ethertype := (ethernetType b 0).1
    if ethertype = 0x800 then some .ip4 else if ethertype = 0x86dd then some .ip6 else none
  else if be b 0 1 / 16 = 4 then some .ip4
  else if be b 0 1 / 16 = 6 then some .ip6
  else none

/-- `gho` as all functions here fill it in: it stays zero where there is no IP header. -/
def headerOffsets (b : VlibBuffer) (v : VnetBuffer) (isL2 : Bool) : GenericHeaderOffset :=
  match groIsIp4OrIp6Packet b v isL2 with
  | some version => vnetGenericHeaderOffsetParser b v.saveRewriteLength isL2 version
  | none => ⟨0, 0, 0, 0, none, false, none⟩

def tcpFlagPsh : Byte := 0x08
def tcpFlagAck : Byte := 0x10

def tcpFlags (b : VlibBuffer) (l4 : ℕ) : Byte := b.current (l4 + 13)
def tcpSeqNumber (b : VlibBuffer) (l4 : ℕ) : ℕ := be b (l4 + 4) 4
def tcpAckNumber (b : VlibBuffer) (l4 : ℕ) : ℕ := be b (l4 + 8) 4

def groIsBadPacket (b : VlibBuffer) (flags : Byte) (l234Sz : ℕ) : Bool :=
  decide (b.currentLength ≤ l234Sz) || flags &&& ~~~(tcpFlagAck ||| tcpFlagPsh) != 0

/-- `gro_get_ip4_flow_from_packet` and `gro_get_ip6_flow_from_packet` -/
def groGetFlowFromPacket (b : VlibBuffer) (v : VnetBuffer) (gho : GenericHeaderOffset) (version : IpVersion) :
    GroFlowKey :=
  let src := match version with
    | .ip4 => be b (gho.l3HdrOffset + 12) 4
    | .ip6 => be b (gho.l3HdrOffset + 8) 16
  let dst := match version with
    | .ip4 => be b (gho.l3HdrOffset + 16) 4
    | .ip6 => be b (gho.l3HdrOffset + 24) 16
  { swIfIndexRx := v.swIfIndexRx, swIfIndexTx := v.swIfIndexTx
    srcAddress := BitVec.ofNat 128 src, dstAddress := BitVec.ofNat 128 dst
    srcPort := BitVec.ofNat 16 (be b gho.l4HdrOffset 2), dstPort := BitVec.ofNat 16 (be b (gho.l4HdrOffset + 2) 2) }

/-- The buffers after `vlib_buffer_length_in_chain`, which remembers the length where it had to count. -/
def countLength (vm : Vm) (bi : ℕ) : Vm :=
  if (vm.buffer bi).nextPresent && !(vm.buffer bi).totalLengthValid then
    vm.modify bi fun b => { b with
      totalLengthNotIncludingFirstBuffer := (vm.vlibBufferLengthInChain bi - b.currentLength : ℤ)
      totalLengthValid := true }
  else vm

/-- The TCP payload as the IP header tells it, in `gro_fix_padded_packet_len`. -/
def tcpPayloadLen (b : VlibBuffer) (gho : GenericHeaderOffset) : ℕ :=
  if gho.ip = some .ip4 then
    u32 (be b (gho.l3HdrOffset + 2) 2 - ip4HeaderBytes b gho.l3HdrOffset - gho.l4HdrSz)
  else u32 (be b (gho.l3HdrOffset + 4) 2 - gho.l4HdrSz)

def groFixPaddedPacketLen (vm : Vm) (bi0 : ℕ) (gho : GenericHeaderOffset) (pktLen : ℕ) : Vm × ℕ :=
  let len := u32 (gho.hdrSz + tcpPayloadLen (vm.buffer bi0) gho)
  if len < pktLen then
    (vm.modify bi0 fun b => { b with currentLength := len % 2 ^ 16 }, len % 2 ^ 16)
  else (vm, pktLen)

/-- What `gro_get_packet_data` finds out: no length is `return 0`. -/
structure PacketData where
  vm : Vm
  pktLen : ℕ
  gho : GenericHeaderOffset
  flowKey : GroFlowKey

/-- `gro_get_packet_data`. `checksumCorrect` is what the validation of the L4 checksum comes to. -/
def groGetPacketData (vm : Vm) (v : VnetBuffer) (bi0 : ℕ) (isL2 checksumCorrect : Bool) : Option PacketData :=
  let b := vm.buffer bi0
  let gho := headerOffsets b v isL2
  if !gho.tcp then none
  else if groIsBadPacket b (tcpFlags b gho.l4HdrOffset) gho.hdrSz then none
  else
    match gho.ip with
    | none => none
    | some version =>
      if !(v.offload || checksumCorrect) then none
      else
        let pktLen := vm.vlibBufferLengthInChain bi0
        let vm := countLength vm bi0
        let flowKey := groGetFlowFromPacket b v gho version
        if pktLen ≥ tcpMaxGsoSz then some ⟨vm, 0, gho, flowKey⟩
        else if pktLen ≤ groPaddedPacketSize then
          let (vm, pktLen) := groFixPaddedPacketLen vm bi0 gho pktLen
          some ⟨vm, pktLen, gho, flowKey⟩
        else some ⟨vm, pktLen, gho, flowKey⟩

/-- `gro_tcp_sequence_check`, for `GRO_PACKET_ACTION_ENQUEUE` -/
def groTcpSequenceCheck (seq0 seq1 payloadLen0 : ℕ) : Bool := (seq0 + payloadLen0) % 2 ^ 32 == seq1

/-- The total length of a packet that was in one buffer up to now. -/
def startTotal (b : VlibBuffer) : VlibBuffer :=
  if b.nextPresent then b else { b with totalLengthNotIncludingFirstBuffer := 0 }

def linkTo (bi : ℕ) (b : VlibBuffer) : VlibBuffer := { b with nextPresent := true, nextBuffer := bi }

def addTotal (n : ℕ) (b : VlibBuffer) : VlibBuffer :=
  { b with totalLengthNotIncludingFirstBuffer := b.totalLengthNotIncludingFirstBuffer + n, totalLengthValid := true }

def groMergeBuffers (vm : Vm) (b0 bi1 payloadLen1 l234Sz1 : ℕ) : Vm :=
  let vm := vm.modify b0 startTotal
  let pb := ((vm.chain b0).getLast?).getD b0
  let vm := vm.modify bi1 (·.advance l234Sz1)
  let vm := vm.modify pb (linkTo bi1)
  vm.modify b0 (addTotal payloadLen1)

/-! ### The table at work -/

/-- The buffers and the flow table. -/
structure GroMain where
  vm : Vm
  vnet : ℕ → VnetBuffer
  table : GroFlowTable

namespace GroMain

def setFlow (s : GroMain) (i : Fin groFlowTableMaxSize) (flow : GroFlow) : GroMain :=
  { s with table := s.table.setFlow i flow }

/-- What `gro_fixup_header` writes into the first buffer: the length of the IP packet and the last acknowledgement. -/
def fixupHeader (b : VlibBuffer) (gho : GenericHeaderOffset) (length ackNumber : ℕ) : VlibBuffer :=
  let b := match gho.ip with
    | some .ip4 => b.store (gho.l3HdrOffset + 2) (toBe 2 (u32 (length - gho.l3HdrOffset)))
    | some .ip6 => b.store (gho.l3HdrOffset + 4) (toBe 2 (u32 (length - gho.l4HdrOffset)))
    | none => b
  b.store (gho.l4HdrOffset + 8) (toBe 4 ackNumber)

def groFixupHeader (s : GroMain) (bi : ℕ) (ackNumber : ℕ) : GroMain :=
  let gho := headerOffsets (s.vm.buffer bi) (s.vnet bi) s.table.isL2
  let length := s.vm.vlibBufferLengthInChain bi
  { s with
    vm := (countLength s.vm bi).modify bi (fixupHeader · gho length ackNumber)
    vnet := Function.update s.vnet bi
      { s.vnet bi with
        gso := (s.vnet bi).gso || gho.ip.isSome
        offload := (s.vnet bi).offload || gho.ip.isSome
        isIp4 := (s.vnet bi).isIp4 || gho.ip == some .ip4
        isIp6 := (s.vnet bi).isIp6 || gho.ip == some .ip6 } }

/-- The packet of a slot is made ready and its slot reset: the common end of all returns from the table. -/
def flushFlow (s : GroMain) (i : Fin groFlowTableMaxSize) : GroMain :=
  let flow := s.table.groFlow i
  let s := s.groFixupHeader flow.bufferIndex flow.lastAckNumber
  { s with table := s.table.resetFlow i }

/-- One round of the loop of `vnet_gro_flow_table_flush`. -/
def flushSlot (now : Fin groFlowTableMaxSize → ℕ) (r : GroMain × List ℕ) (i : Fin groFlowTableMaxSize) :
    GroMain × List ℕ :=
  let flow := r.1.table.groFlow i
  if flow.nBuffers ≠ 0 ∧ flow.nextTimeoutTs < now i then (r.1.flushFlow i, r.2 ++ [flow.bufferIndex]) else r

/-- `vnet_gro_flow_table_flush`, with the buffers it writes to `to`. `now` is the time when a slot is looked at. -/
def vnetGroFlowTableFlush (s : GroMain) (now : Fin groFlowTableMaxSize → ℕ) : GroMain × List ℕ :=
  if s.table.flowTableSize > 0 then (finRange groFlowTableMaxSize).foldl (flushSlot now) (s, [])
  else (s, [])

def vnetGroFlushAllPackets (s : GroMain) (i : Fin groFlowTableMaxSize) (biS bi0 : ℕ) : GroMain × List ℕ :=
  let s := s.groFixupHeader biS (s.table.groFlow i).lastAckNumber
  let s := s.setFlow i { s.table.groFlow i with nBuffers := 0 }
  ({ s with table := s.table.resetFlow i }, [biS, bi0])

/-- A slot that has nothing takes the packet. -/
def storeFirst (s : GroMain) (i : Fin groFlowTableMaxSize) (bi0 ackNumber now : ℕ) : GroMain :=
  s.setFlow i { groFlowStorePacket (s.table.groFlow i) bi0 with
    lastAckNumber := ackNumber, nextTimeoutTs := now + groFlowTimeout }

/-- The packet is chained behind that of the slot. -/
def mergeInto (s : GroMain) (i : Fin groFlowTableMaxSize) (biS bi0 payloadLen0 l234Sz0 ackNumber : ℕ) : GroMain :=
  { s with vm := groMergeBuffers s.vm biS bi0 payloadLen0 l234Sz0 }.setFlow i
    { groFlowStorePacket (s.table.groFlow i) bi0 with lastAckNumber := ackNumber }

/-- `vnet_gro_flow_table_inline` for a slot with a packet in it. -/
def coalesce (s : GroMain) (i : Fin groFlowTableMaxSize) (bi0 : ℕ) (gho0 : GenericHeaderOffset) (pktLen0 : ℕ)
    (isFlush : Bool) (now : ℕ) : GroMain × List ℕ :=
  let b0 := s.vm.buffer bi0
  let biS := (s.table.groFlow i).bufferIndex
  let bS := s.vm.buffer biS
  let ghoS := headerOffsets bS (s.vnet biS) s.table.isL2
  let pktLenS := s.vm.vlibBufferLengthInChain biS
  let s := { s with vm := countLength s.vm biS }
  let payloadLen0 := u32 (pktLen0 - gho0.hdrSz)
  let payloadLenS := u32 (pktLenS - ghoS.hdrSz)
  let ack0 := tcpAckNumber b0 gho0.l4HdrOffset
  if groTcpSequenceCheck (tcpSeqNumber bS ghoS.l4HdrOffset) (tcpSeqNumber b0 gho0.l4HdrOffset) payloadLenS then
    if u32 (pktLenS + payloadLen0) < tcpMaxGsoSz ∧ (s.table.groFlow i).nBuffers < groFlowNBuffers then
      let s := s.mergeInto i biS bi0 payloadLen0 gho0.hdrSz ack0
      if isFlush then
        let flags := tcpFlags bS ghoS.l4HdrOffset ||| tcpFlags b0 gho0.l4HdrOffset
        let s := { s with vm := s.vm.modify biS (·.store (ghoS.l4HdrOffset + 13) [flags]) }
        let s := s.groFixupHeader biS ack0
        let s := s.setFlow i { s.table.groFlow i with nBuffers := 0 }
        ({ s with table := s.table.resetFlow i }, [biS])
      else (s, [])
    else if isFlush then s.vnetGroFlushAllPackets i biS bi0
    else
      -- the stored packet is full: it goes, and the new one takes its place
      let s := s.groFixupHeader biS (s.table.groFlow i).lastAckNumber
      let s := s.setFlow i { s.table.groFlow i with nBuffers := 0 }
      (s.storeFirst i bi0 ack0 now, [biS])
  else s.vnetGroFlushAllPackets i biS bi0

/-- `vnet_gro_flow_table_inline`, with the buffers it writes to `to`. -/
def vnetGroFlowTableInline (s : GroMain) (bi0 : ℕ) (checksumCorrect : Bool) (now : ℕ) : GroMain × List ℕ :=
  if !s.table.isEnable then (s, [bi0])
  else if (s.vnet bi0).gso then (s, [bi0])
  else
    match groGetPacketData s.vm (s.vnet bi0) bi0 s.table.isL2 checksumCorrect with
    | none => (s, [bi0])
    | some ⟨vm, pktLen0, gho0, flowKey0⟩ =>
      let s := { s with vm := vm }
      if pktLen0 = 0 then (s, [bi0])
      else
        let b0 := s.vm.buffer bi0
        let isFlush := !(tcpFlags b0 gho0.l4HdrOffset &&& tcpFlagPsh == 0 && decide (pktLen0 > groMinPacketSize))
        let found := if isFlush then (s.table.getFlow flowKey0).map fun i => (i, s.table)
          else s.table.findOrAddFlow flowKey0
        match found with
        | none => (s, [bi0])
        | some (i, table) =>
          let s := { s with table := table }
          if (s.table.groFlow i).nBuffers = 0 then
            (s.storeFirst i bi0 (tcpAckNumber b0 gho0.l4HdrOffset) now, [])
          else s.coalesce i bi0 gho0 pktLen0 isFlush now

end GroMain

end Vpp.Gso
