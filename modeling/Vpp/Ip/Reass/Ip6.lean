import Vpp.Vlib.Buffer
import Vpp.Ip.Reass.Range

/-! Full IPv6 reassembly (`vnet/ip/reass/ip6_full_reass.c`).

    As for IPv4, a context holds ranges and is complete when it holds as many octets as the last fragment
    says there are. But no range is ever trimmed or discarded: a fragment is put between two ranges, or it
    is the very fragment of a range and is ignored, or the whole context is given up.

        ranges   [0 .. 15]           [32 .. 47]
        fragment           [16 .. 31]                 new
                             [24 .......... 47]       overlap
                                     [32 .. 47]       duplicate

    The packet emitted is that of the first fragment, without its fragment header, and then the payloads of
    the others. -/

namespace Vpp.Ip
open Vpp.Schemes Vpp.Vlib

/-! ### Extension headers -/

/-- `ip_protocol_t`, as far as it matters here. -/
def ipProtocolIpv6Fragmentation : ℕ := 44
def ipProtocolIpsecAh : ℕ := 51
def ipProtocolIcmp6 : ℕ := 58

/-- `ip6_ext_hdr`: hop-by-hop and destination options, routing, mobility, HIP and SHIM6 headers. -/
def ip6ExtHdr (nexthdr : ℕ) : Bool := nexthdr ∈ [0, 43, 60, 135, 139, 140]

section
variable (b : VlibBuffer)

/-- `ip6_ext_header_len` of the header at `offset` -/
def ip6ExtHeaderLen (offset : ℕ) : ℕ := ((b.current (offset + 1)).toNat + 1) * 8

def ip6ExtAuthhdrLen (offset : ℕ) : ℕ := ((b.current (offset + 1)).toNat + 2) * 4

def ip6ExtHeaderLenS (nh offset : ℕ) : ℕ :=
  if ip6ExtHdr nh then ip6ExtHeaderLen b offset
  else if nh = ipProtocolIpsecAh then ip6ExtAuthhdrLen b offset
  else if nh = ipProtocolIpv6Fragmentation then 8
  else if nh = ipProtocolIcmp6 then 4
  else if nh = ipProtocolUdp then 8
  else if nh = ipProtocolTcp then 20
  else 0

/-- `clib_net_to_host_u16 (ip->payload_length)` -/
def ip6PayloadLength : ℕ := ofBe [b.current 4, b.current 5]

/-- `fragment_offset_and_more` of the fragment header at `offset` -/
def ip6FragOffsetAndMore (offset : ℕ) : ℕ := ofBe [b.current (offset + 2), b.current (offset + 3)]

def ip6FragHdrOffsetBytes (offset : ℕ) : ℕ := 8 * (ip6FragOffsetAndMore b offset / 8)

def ip6FragHdrMore (offset : ℕ) : Bool := ip6FragOffsetAndMore b offset &&& 1 != 0

/-- `ip6_ext_next_header_s`: the offset and the protocol of the next header, and `last`. -/
def ip6ExtNextHeaderS (curNh offset maxOffset : ℕ) : Option (ℕ × ℕ × Bool) :=
  let next (hdrlen : ℕ) (last : Bool) :=
    if offset + hdrlen ≥ maxOffset then none else some (offset + hdrlen, (b.current offset).toNat, last)
  if ip6ExtHdr curNh then next (ip6ExtHeaderLen b offset) false
  else if curNh = ipProtocolIpv6Fragmentation then next 8 (ip6FragHdrOffsetBytes b offset > 0)
  else if curNh = ipProtocolIpsecAh then next (ip6ExtAuthhdrLen b offset) false
  else none

/-- An entry of `ip6_ext_hdr_chain_t`. -/
structure ExtHdr where
  protocol : ℕ
  offset : ℕ
deriving DecidableEq

/-- The loop of `ip6_ext_header_walk`, for at most `n` more headers. -/
def extHeadersFrom (maxOffset : ℕ) : ℕ → (offset nextProto : ℕ) → (last : Bool) → List ExtHdr
  | 0, _, _, _ => []
  | n + 1, offset, nextProto, last =>
    ⟨nextProto, offset⟩ ::
      if last then []
      else
        match ip6ExtNextHeaderS b nextProto offset maxOffset with
        | none => []
        | some (offset', proto', last') => extHeadersFrom maxOffset n offset' proto' last'

/-- `ip6_ext_header_walk`: the headers, which are in the first buffer and at most 4, or `none` for a negative result. -/
def ip6ExtHeaderWalk : Option (List ExtHdr) :=
  let maxOffset := min (min b.currentLength 256) (40 + ip6PayloadLength b)
  let protocol := (b.current 6).toNat
  if ip6ExtHeaderLenS b protocol 40 + 40 > maxOffset then none
  else some (extHeadersFrom b maxOffset 4 40 protocol false)

/-- The headers in front of the last fragment header, and its offset. -/
def ip6FragHdr : Option (List ExtHdr × ℕ) :=
  match ip6ExtHeaderWalk b with
  | none => none
  | some eh =>
    match eh.reverse.dropWhile fun h => h.protocol != ipProtocolIpv6Fragmentation with
    | [] => none
    | h :: before => some (before.reverse, h.offset)

end

/-! ### The checks of `ip6_full_reassembly_inline` -/

section
variable (vm : Vm) (bi fragHdrOffset : ℕ)

/-- `fragment_length`, a 32-bit difference -/
def ip6FragmentLength : ℕ := (vm.vlibBufferLengthInChain bi + 2 ^ 32 - (fragHdrOffset + 8)) % 2 ^ 32

def ip6FragmentLast : ℕ :=
  (ip6FragHdrOffsetBytes (vm.buffer bi) fragHdrOffset + ip6FragmentLength vm bi fragHdrOffset + 2 ^ 32 - 1) % 2 ^ 32

def ip6FullReassVerifyFragmentMultiple8 : Bool :=
  !(ip6FragHdrMore (vm.buffer bi) fragHdrOffset && ip6FragmentLength vm bi fragHdrOffset % 8 != 0)

def ip6FullReassVerifyPacketSizeLt64k : Bool :=
  (ip6FragHdrOffsetBytes (vm.buffer bi) fragHdrOffset + ip6FragmentLength vm bi fragHdrOffset) % 2 ^ 32 ≤ 65535

end

/-! ### Contexts -/

/-- `ip6_full_reass_rc_t` -/
inductive Ip6ReassRc where
  | ok | internalError | tooManyFragments | noBuf | handoff | invalidFragLen | overlap
deriving DecidableEq

/-- A range, with the offset of the fragment header that its buffer keeps. -/
structure Ip6Range extends Range where
  ip6FragHdrOffset : ℕ
deriving DecidableEq

structure Ip6FullReass where
  lastHeard : ℕ
  /-- the ranges from `first_bi` on -/
  ranges : List Ip6Range
  lastPacketOctet : ℕ
  dataLen : ℕ
  nextIndex : ℕ
  errorNextIndex : ℕ
  minFragmentLength : ℕ
  fragmentsN : ℕ
  memoryOwnerThreadIndex : ℕ
  sendoutThreadIndex : ℕ
deriving DecidableEq

/-- A context that `ip6_full_reass_find_or_create` has made. -/
def ip6FullReassInit (now thread : ℕ) : Ip6FullReass :=
  { lastHeard := now, ranges := [], lastPacketOctet := noOctet, dataLen := 0, nextIndex := 2 ^ 32 - 1
    errorNextIndex := 2 ^ 32 - 1, minFragmentLength := 0, fragmentsN := 0, memoryOwnerThreadIndex := thread
    sendoutThreadIndex := 0 }

/-! ### Finalizing -/

/-- What the loops of `ip6_full_reass_finalize` change. -/
structure Ip6Joined where
  vm : Vm
  lastB : Option ℕ
  totalLength : ℕ
  vecDropCompress : List ℕ

/-- The inner loop of `ip6_full_reass_finalize`, over the buffers of one fragment. Unlike in the IPv4 code the buffers
    dropped are freed at the end, and those behind the data keep `NEXT_PRESENT`. -/
def ip6JoinBuffers (firstBi : ℕ) : List ℕ → Ip6Joined → (trimFront keepData : ℕ) →
    Except Ip6Joined Ip6Joined
  | [], j, _, _ => .ok j
  | bi :: rest, j, trimFront, keepData =>
    if trimFront > (j.vm.buffer bi).currentLength then
      -- drop whole buffer
      if rest = [] then .error j
      else
        ip6JoinBuffers firstBi rest
          { j with
            vm := j.vm.modify bi fun b => { b with nextPresent := false }
            vecDropCompress := j.vecDropCompress ++ [bi] }
          (trimFront - (j.vm.buffer bi).currentLength) keepData
    else
      let vm := j.vm.modify bi (·.advance trimFront)
      if keepData ≠ 0 then
        let vm :=
          match j.lastB with
          | some last => vm.modify last fun b => { b with nextPresent := true, nextBuffer := bi }
          | none => vm
        if keepData ≤ (vm.buffer bi).currentLength then
          ip6JoinBuffers firstBi rest
            { j with
              vm := vm.modify bi fun b => { b with currentLength := keepData }
              lastB := some bi, totalLength := j.totalLength + keepData } 0 0
        else if rest = [] then .error { j with vm := vm, lastB := some bi }
        else
          ip6JoinBuffers firstBi rest
            { j with vm := vm, lastB := some bi, totalLength := j.totalLength + (vm.buffer bi).currentLength } 0
            (keepData - (vm.buffer bi).currentLength)
      else if bi = firstBi then .error { j with vm := vm }
      else
        ip6JoinBuffers firstBi rest { j with vm := vm, vecDropCompress := j.vecDropCompress ++ [bi] } 0 0

/-- The outer loop, over the ranges. -/
def ip6JoinRanges (firstBi : ℕ) : List Ip6Range → Ip6Joined → Except Ip6Joined Ip6Joined
  | [], j => .ok j
  | r :: rs, j =>
    let len := j.vm.vlibBufferLengthInChain r.bi
    let hdr := r.ip6FragHdrOffset + 8
    -- the first buffer keeps its header
    let trimFront := if r.bi = firstBi then 0 else u32 (hdr + r.dataOffset)
    let trimEnd := if r.bi = firstBi then u32 (len - r.dataLen - hdr) else u32 (len - trimFront - r.dataLen)
    if !r.sane then .error j
    else if r.bi = firstBi ∧ (r.dataOffset ≠ 0 ∨ len = trimEnd) then .error j
    else
      match ip6JoinBuffers firstBi (j.vm.chain r.bi) j trimFront (u32 (len - trimFront - trimEnd)) with
      | .error j => .error j
      | .ok j => ip6JoinRanges firstBi rs j

/-- The fragment header at `offset` is dropped: the header before it, or the IPv6 header, gets its next header, and
    what is behind it moves forward. -/
def dropFragHdr (b : VlibBuffer) (before : List ExtHdr) (offset : ℕ) : VlibBuffer :=
  let nextHdr := [b.current offset]
  let b :=
    match before.getLast? with
    | some prev => b.store prev.offset nextHdr
    | none => b.store 6 nextHdr
  { b with
    currentLength := b.currentLength - 8
    data := fun i =>
      if b.currentData + offset ≤ i ∧ i < b.currentData + b.currentLength - 8 then b.data (i + 8) else b.data i }

/-- `ip6_full_reass_finalize`: the code and the buffers. `none` where the linearisation never returns, or where the
    length given to `memmove` is negative. -/
def ip6FullReassFinalize (vm : Vm) (ranges : List Ip6Range) : Option (Ip6ReassRc × Vm) :=
  match ranges with
  | [] => none
  | first :: _ =>
    match ip6JoinRanges first.bi ranges ⟨vm, none, 0, []⟩ with
    | .error j => some (.internalError, j.vm.vlibBufferFree j.vecDropCompress)
    | .ok j =>
      let fail (vm : Vm) := some (Ip6ReassRc.internalError, vm.vlibBufferFree j.vecDropCompress)
      match j.lastB with
      | none => fail j.vm
      | some last =>
        let vm := j.vm.modify last fun b => { b with nextPresent := false }
        if j.totalLength < (vm.buffer first.bi).currentLength then fail vm
        else
          let totalLength := j.totalLength - (vm.buffer first.bi).currentLength
          let vm := vm.modify first.bi fun b =>
            { b with totalLengthValid := true, totalLengthNotIncludingFirstBuffer := totalLength }
          match ip6FragHdr (vm.buffer first.bi) with
          | none => fail vm
          | some (before, offset) =>
            if offset ≠ first.ip6FragHdrOffset then
              -- the next header has been overwritten already
              fail (vm.modify first.bi fun b =>
                match before.getLast? with
                | some prev => b.store prev.offset [b.current offset]
                | none => b.store 6 [b.current offset])
            else if (vm.buffer first.bi).currentLength < offset + 8 then none
            else
              let vm := vm.modify first.bi fun b =>
                let b := dropFragHdr b before offset
                b.store 4 (toBe 2 (totalLength + b.currentLength - 40))
              match vlibBufferChainLinearize vm first.bi with
              | none => none
              | some (0, vm) => some (.noBuf, vm.vlibBufferFree j.vecDropCompress)
              | some (_ + 1, vm) => some (.ok, vm.vlibBufferFree j.vecDropCompress)

/-! ### `ip6_full_reass_update` -/

/-- What the loop of `ip6_full_reass_update` finds. -/
inductive Ip6Probe where
  /-- the fragment has been put among the ranges -/
  | consumed (ranges : List Ip6Range)
  | duplicate
  | overlap
deriving DecidableEq

/-- A range that the loop passes by. -/
def Ip6Probe.past (c : Ip6Range) : Ip6Probe → Ip6Probe
  | .consumed ranges => .consumed (c :: ranges)
  | p => p

/-- The loop of `ip6_full_reass_update` from a candidate on. -/
def ip6Probe (fragmentFirst fragmentLast : ℕ) (new : Ip6Range) : List Ip6Range → Ip6Probe
  | [] => .duplicate
  | c :: rest =>
    if fragmentFirst > c.rangeLast then
      -- this fragment starts after the candidate range
      if c.rangeLast < fragmentLast ∧ rest = [] then .consumed [c, new]
      else (ip6Probe fragmentFirst fragmentLast new rest).past c
    else if fragmentLast < c.rangeFirst then
      -- this fragment ends before the candidate range without any overlap
      .consumed (new :: c :: rest)
    else if fragmentFirst = c.rangeFirst ∧ fragmentLast = c.rangeLast then .duplicate
    else .overlap

inductive Ip6ReassNext where
  | input | drop | icmpError | handoff
  /-- a node of a custom application -/
  | custom (index : ℕ)
deriving DecidableEq

/-- `error0` -/
inductive Ip6ReassError where
  | none | duplicateFragment | limitReached
deriving DecidableEq

/-- What `ip6_full_reass_update` returns and writes through its pointers: `bi` is `*bi0`, `~0` being `none`. -/
structure Ip6Updated where
  rc : Ip6ReassRc
  vm : Vm
  reass : Ip6FullReass
  bi : Option ℕ
  next : Option Ip6ReassNext
  error : Ip6ReassError
  /-- the context was given back by `ip6_full_reass_finalize` -/
  completed : Bool

/-- From `check_if_done_maybe` on. -/
def ip6CheckIfDone (maxReassLen : ℕ) (isCustom skipBihash : Bool) (vm : Vm) (bi : ℕ) (reass : Ip6FullReass)
    (consumed : Bool) : Option Ip6Updated :=
  if !consumed && skipBihash then some ⟨.internalError, vm, reass, some bi, none, .none, false⟩
  else if reass.lastPacketOctet ≠ noOctet ∧ reass.dataLen = (reass.lastPacketOctet + 1) % 2 ^ 32 then
    match ip6FullReassFinalize vm reass.ranges with
    | none => none
    | some (.ok, vm) =>
      some {
        rc := if reass.memoryOwnerThreadIndex = reass.sendoutThreadIndex then .ok else .handoff
        vm := vm, reass := reass, bi := reass.ranges.head?.map fun r => r.bi
        next := some (if isCustom then .custom reass.nextIndex else .input), error := .none
        completed := true }
    | some (rc, vm) => some ⟨rc, vm, reass, reass.ranges.head?.map fun r => r.bi, none, .none, false⟩
  else if skipBihash then some ⟨.internalError, vm, reass, some bi, none, .none, false⟩
  else if consumed then
    some {
      rc := if reass.fragmentsN > maxReassLen then .tooManyFragments else .ok
      vm := vm, reass := reass, bi := none, next := none, error := .none, completed := false }
  else some ⟨.ok, vm, reass, some bi, some .drop, .duplicateFragment, false⟩

/-- The next indices are stored before they are overwritten. -/
def ip6StoreNext (custom : Option (ℕ × ℕ)) (reass : Ip6FullReass) : Ip6FullReass :=
  match custom with
  | some (nextIndex, errorNextIndex) => { reass with nextIndex, errorNextIndex }
  | none => reass

/-- `ip6_full_reass_update` for the fragment in `bi` whose fragment header is at `fragHdrOffset`; `custom` are the two
    next indices in the buffer of a custom application. -/
def ip6FullReassUpdate (maxReassLen : ℕ) (custom : Option (ℕ × ℕ)) (skipBihash : Bool) (vm : Vm)
    (reass : Ip6FullReass) (bi fragHdrOffset : ℕ) : Option Ip6Updated :=
  let b := vm.buffer bi
  let reass := ip6StoreNext custom reass
  if b.currentLength < 40 ∨ fragHdrOffset = 0 ∨ fragHdrOffset ≥ b.currentLength then
    some ⟨.internalError, vm, reass, some bi, none, .none, false⟩
  else
    let fragmentFirst := ip6FragHdrOffsetBytes b fragHdrOffset
    let fragmentLast := ip6FragmentLast vm bi fragHdrOffset
    if ip6FragmentLength vm bi fragHdrOffset = 0 then
      some ⟨.invalidFragLen, vm, reass, some bi, none, .none, false⟩
    else
      let new : Ip6Range := { Range.ofFragment bi fragmentFirst fragmentLast with ip6FragHdrOffset := fragHdrOffset }
      -- whatever becomes of the fragment
      let reass :=
        { reass with
          lastPacketOctet := if ip6FragHdrMore b fragHdrOffset then reass.lastPacketOctet else fragmentLast }
      if reass.ranges = [] then
        -- starting a new reassembly
        ip6CheckIfDone maxReassLen custom.isSome skipBihash vm bi
          { reass with
            ranges := [new], dataLen := (reass.dataLen + new.dataLen) % 2 ^ 32
            minFragmentLength := ip6PayloadLength b, fragmentsN := 1 } true
      else
        -- the estimated MTU read from the buffer shares its place with `fragment_first`, just written
        let reass := { reass with minFragmentLength := min (ip6PayloadLength b) (fragmentFirst % 2 ^ 16) }
        match ip6Probe fragmentFirst fragmentLast new reass.ranges with
        | .overlap => some ⟨.overlap, vm, reass, some bi, none, .none, false⟩
        | .duplicate =>
          ip6CheckIfDone maxReassLen custom.isSome skipBihash vm bi
            { reass with fragmentsN := reass.fragmentsN + 1 } false
        | .consumed ranges =>
          ip6CheckIfDone maxReassLen custom.isSome skipBihash vm bi
            { reass with
              ranges := ranges, dataLen := (reass.dataLen + new.dataLen) % 2 ^ 32
              fragmentsN := reass.fragmentsN + 1 } true

/-- A fragment that comes for a context: its buffer, what a custom application has left in it, and when it comes. -/
structure Ip6Arrival where
  bi : ℕ
  fragHdrOffset : ℕ
  custom : Option (ℕ × ℕ)
  now : ℕ
deriving DecidableEq

/-- What `ip6_full_reassembly_inline` does with a fragment of a context in the hash table that the thread owns, up to
    the result of `ip6_full_reass_update`. -/
def ip6FullReassReceive (maxReassLen thread : ℕ) (vm : Vm) (reass : Ip6FullReass) (a : Ip6Arrival) :
    Option Ip6Updated :=
  ip6FullReassUpdate maxReassLen a.custom false vm
    { reass with
      lastHeard := a.now
      sendoutThreadIndex :=
        if ip6FragHdrOffsetBytes (vm.buffer a.bi) a.fragHdrOffset = 0 then thread else reass.sendoutThreadIndex }
    a.bi a.fragHdrOffset

/-- The context after some fragments, where each was stored or ignored. -/
def ip6FullReassRun (maxReassLen thread : ℕ) : Vm → Ip6FullReass → List Ip6Arrival → Option (Vm × Ip6FullReass)
  | vm, reass, [] => some (vm, reass)
  | vm, reass, a :: as =>
    match ip6FullReassReceive maxReassLen thread vm reass a with
    | none => none
    | some u =>
      if u.rc = .ok ∧ u.completed = false then ip6FullReassRun maxReassLen thread u.vm u.reass as else none

end Vpp.Ip
