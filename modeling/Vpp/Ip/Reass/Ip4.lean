import Vpp.Vlib.Buffer
import Vpp.Ip.Reass.Range

/-! Full IPv4 reassembly (`vnet/ip/reass/ip4_full_reass.c`).

    A fragment that comes in is put among the ranges of its context: it is ignored where a range has it
    already, ranges that it covers are discarded, and ranges that it overlaps are trimmed at the front.
    The context is complete when as many octets are held as the last fragment says there are. The buffers
    of all ranges are then joined to one packet, without the headers of all but the first and without
    what the ranges leave out.

        ranges   [0 .. 15]  [16 .. 31]      [40 .. 47]
        fragment          [ 8 ........ 39]
                 [0 .. 15]  [16 ...... 39]  [40 .. 47]      (the second range is discarded) -/

namespace Vpp.Ip
open Vpp.Schemes Vpp.Vlib

/-! ### The header of the packet in a buffer -/

section
variable (b : VlibBuffer)

def ip4HeaderBytes : ℕ := 4 * ((b.current 0).toNat &&& 0xf)

/-- `clib_net_to_host_u16 (ip->length)` -/
def ip4Length : ℕ := ofBe [b.current 2, b.current 3]

def ip4FlagsAndFragmentOffset : ℕ := ofBe [b.current 6, b.current 7]

def ip4GetFragmentOffset : ℕ := ip4FlagsAndFragmentOffset b &&& 0x1fff

/-- The flag `IP4_HEADER_FLAG_MORE_FRAGMENTS` -/
def ip4GetFragmentMore : Bool := ip4FlagsAndFragmentOffset b &&& 0x2000 != 0

def ip4GetFragmentOffsetBytes : ℕ := 8 * ip4GetFragmentOffset b

end

section
variable (hdr : ℕ → Byte)

/-- Word `k` of a header as a little-endian host reads it. -/
def headerWord (k : ℕ) : ℕ := ofLe [hdr (4 * k), hdr (4 * k + 1), hdr (4 * k + 2), hdr (4 * k + 3)]

/-- `ip4_header_checksum`, in the byte order of the host -/
def ip4HeaderChecksum : ℕ :=
  let optionLen := ((hdr 0).toNat &&& 0xf) - 5
  let sum := headerWord hdr 0 + headerWord hdr 1 + ofLe [hdr 8, hdr 9] + headerWord hdr 3 + headerWord hdr 4
  let sum := sum + ((List.range (min optionLen 10)).map fun k => headerWord hdr (5 + k)).sum
  let sum := sum % 2 ^ 32 + sum / 2 ^ 32
  let sum := sum % 2 ^ 16 + sum / 2 ^ 16
  let sum := sum % 2 ^ 16 + sum / 2 ^ 16
  2 ^ 16 - 1 - sum % 2 ^ 16

end

/-! ### Contexts -/

/-- `ip4_full_reass_rc_t` -/
inductive Ip4ReassRc where
  | ok | tooManyFragments | internalError | noBuf | handoff
deriving DecidableEq

structure Ip4FullReass where
  lastHeard : ℕ
  /-- the ranges from `first_bi` on -/
  ranges : List Range
  lastPacketOctet : ℕ
  dataLen : ℕ
  nextIndex : ℕ
  errorNextIndex : ℕ
  minFragmentLength : ℕ
  fragmentsN : ℕ
  memoryOwnerThreadIndex : ℕ
  sendoutThreadIndex : ℕ
deriving DecidableEq

/-- A context from the pool after `ip4_full_reass_init`. -/
def ip4FullReassInit (now thread : ℕ) : Ip4FullReass :=
  { lastHeard := now, ranges := [], lastPacketOctet := noOctet, dataLen := 0, nextIndex := 2 ^ 32 - 1
    errorNextIndex := 2 ^ 32 - 1, minFragmentLength := 0, fragmentsN := 0, memoryOwnerThreadIndex := thread
    sendoutThreadIndex := 0 }

/-! ### Finalizing -/

/-- What the loops of `ip4_full_reass_finalize` change. -/
structure Joined where
  vm : Vm
  lastB : Option ℕ
  totalLength : ℕ

/-- A buffer leaves its packet and is freed alone. -/
def dropBuffer (vm : Vm) (bi : ℕ) : Vm :=
  (vm.modify bi fun b => { b with nextPresent := false, nextBuffer := 0 }).vlibBufferFreeOne bi

/-- The last buffer joined leads to `bi`. -/
def linkLast (vm : Vm) (lastB : Option ℕ) (bi : ℕ) : Vm :=
  match lastB with
  | some last => vm.modify last fun b => { b with nextPresent := true, nextBuffer := bi }
  | none => vm

/-- The inner loop of `ip4_full_reass_finalize` over the buffers of one fragment; that there is a next one
    is what the flag `VLIB_BUFFER_NEXT_PRESENT` says. An error is `IP4_REASS_RC_INTERNAL_ERROR`. -/
def joinBuffers (firstBi : ℕ) : List ℕ → Joined → (trimFront keepData : ℕ) → Except Joined Joined
  | [], j, _, _ => .ok j
  | bi :: rest, j, trimFront, keepData =>
    if trimFront > (j.vm.buffer bi).currentLength then
      -- drop whole buffer
      if rest = [] then .error j
      else joinBuffers firstBi rest { j with vm := dropBuffer j.vm bi }
        (trimFront - (j.vm.buffer bi).currentLength) keepData
    else
      let vm := j.vm.modify bi (·.advance trimFront)
      if keepData ≠ 0 then
        let vm := linkLast vm j.lastB bi
        if keepData ≤ (vm.buffer bi).currentLength then
          let j := { vm := vm.modify bi fun b => { b with currentLength := keepData }, lastB := some bi
                     totalLength := j.totalLength + keepData : Joined }
          joinBuffers firstBi rest j 0 0
        else if rest = [] then .error { vm := vm, lastB := some bi, totalLength := j.totalLength }
        else
          joinBuffers firstBi rest
            { vm := vm, lastB := some bi, totalLength := j.totalLength + (vm.buffer bi).currentLength } 0
            (keepData - (vm.buffer bi).currentLength)
      else if bi = firstBi then .error { j with vm := vm }
      else joinBuffers firstBi rest { j with vm := dropBuffer vm bi } 0 0

/-- The outer loop of `ip4_full_reass_finalize`, over the ranges. -/
def joinRanges (firstBi : ℕ) : List Range → Joined → Except Joined Joined
  | [], j => .ok j
  | r :: rs, j =>
    let hdr := ip4HeaderBytes (j.vm.buffer r.bi)
    let len := j.vm.vlibBufferLengthInChain r.bi
    -- the first buffer keeps its header
    let trimFront := if r.bi = firstBi then 0 else u32 (hdr + r.dataOffset)
    let trimEnd :=
      if r.bi = firstBi then u32 (len - r.dataLen - hdr) else u32 (len - trimFront - r.dataLen)
    if !r.sane then .error j
    else if r.bi = firstBi ∧ (r.dataOffset ≠ 0 ∨ len = trimEnd) then .error j
    else
      match joinBuffers firstBi (j.vm.chain r.bi) j trimFront (u32 (len - trimFront - trimEnd)) with
      | .error j => .error j
      | .ok j => joinRanges firstBi rs j

/-- The header that the first buffer gets. -/
def finalizeHeader (b : VlibBuffer) (length : ℕ) : VlibBuffer :=
  let b := b.store 6 (toBe 2 0)
  let b := b.store 2 (toBe 2 length)
  b.store 10 (toBe 2 (ip4HeaderChecksum b.current)).reverse

/-- `ip4_full_reass_finalize`: the code and the buffers; `none` where the linearisation never returns. -/
def ip4FullReassFinalize (vm : Vm) (ranges : List Range) : Option (Ip4ReassRc × Vm) :=
  match ranges with
  | [] => none
  | first :: _ =>
    match joinRanges first.bi ranges { vm := vm, lastB := none, totalLength := 0 } with
    | .error j => some (.internalError, j.vm)
    | .ok j =>
      match j.lastB with
      | none => some (.internalError, j.vm)
      | some last =>
        let vm := j.vm.modify last fun b => { b with nextPresent := false }
        if j.totalLength < (vm.buffer first.bi).currentLength then some (.internalError, vm)
        else
          let totalLength := j.totalLength - (vm.buffer first.bi).currentLength
          let vm := vm.modify first.bi fun b =>
            finalizeHeader
              { b with totalLengthValid := true, totalLengthNotIncludingFirstBuffer := totalLength }
              (b.currentLength + totalLength)
          match vlibBufferChainLinearize vm first.bi with
          | none => none
          | some (0, vm) => some (.noBuf, vm)
          | some (_ + 1, vm) => some (.ok, vm)

/-! ### A fragment among the ranges -/

/-- What the loop of `ip4_full_reass_update` has come to: `ranges` are those from where it stands on. -/
structure Probe where
  rc : Ip4ReassRc
  vm : Vm
  ranges : List Range
  dataLen : ℕ
  consumed : Bool

/-- `ip4_full_reass_insert_range_in_chain` in front of `ranges` -/
def ip4FullReassInsertRangeInChain (vm : Vm) (dataLen : ℕ) (new : Range) (ranges : List Range) : Probe :=
  if !new.sane then ⟨.internalError, vm, new :: ranges, dataLen, false⟩
  else ⟨.ok, vm, new :: ranges, (dataLen + new.dataLen) % 2 ^ 32, true⟩

/-- The buffers that `ip4_full_reass_remove_range_from_chain` frees one by one. -/
def discardBuffers (vm : Vm) (bi : ℕ) : Vm := (vm.chain bi).foldl dropBuffer vm

/-- The loop passes a range by. -/
def Probe.past (r : Range) (p : Probe) : Probe := { p with ranges := r :: p.ranges }

/-- The loop of `ip4_full_reass_update` from a candidate on. -/
def probe (fragmentFirst fragmentLast : ℕ) : List Range → Vm → (dataLen : ℕ) → (new : Range) → Probe
  | [], vm, dataLen, _ => ⟨.ok, vm, [], dataLen, false⟩
  | c :: rest, vm, dataLen, new =>
    -- `ip4_full_reass_remove_range_from_chain`, then on to the next range
    let discard :=
      if !c.sane then (⟨.internalError, vm, rest, dataLen, false⟩ : Probe)
      else
        let dataLen := (dataLen + 2 ^ 32 - c.dataLen) % 2 ^ 32
        if rest = [] then ip4FullReassInsertRangeInChain (discardBuffers vm c.bi) dataLen new []
        else probe fragmentFirst fragmentLast rest (discardBuffers vm c.bi) dataLen new
    if fragmentFirst > c.rangeLast then
      -- this fragment starts after the candidate range
      if c.rangeLast < fragmentLast ∧ rest = [] then
        (ip4FullReassInsertRangeInChain vm dataLen new []).past c
      else (probe fragmentFirst fragmentLast rest vm dataLen new).past c
    else if fragmentLast < c.rangeFirst then
      -- this fragment ends before the candidate range without any overlap
      ip4FullReassInsertRangeInChain vm dataLen new (c :: rest)
    else if fragmentFirst ≥ c.rangeFirst ∧ fragmentLast ≤ c.rangeLast then
      -- this fragment is a (sub)part of an existing range, ignore it
      ⟨.ok, vm, c :: rest, dataLen, false⟩
    else if fragmentFirst < c.rangeFirst then
      let overlap := (fragmentLast + 2 ^ 32 - c.rangeFirst + 1) % 2 ^ 32
      if overlap < c.dataLen then
        let c := { c with rangeFirst := (c.rangeFirst + overlap) % 2 ^ 16 }
        if dataLen < overlap then ⟨.internalError, vm, c :: rest, dataLen, false⟩
        else ip4FullReassInsertRangeInChain vm (dataLen - overlap) new (c :: rest)
      else discard
    else if fragmentLast > c.rangeLast then
      let overlap := (c.rangeLast + 2 ^ 32 - fragmentFirst + 1) % 2 ^ 32
      if overlap < c.dataLen then
        let new := { new with rangeFirst := (new.rangeFirst + overlap) % 2 ^ 16 }
        if rest = [] then (ip4FullReassInsertRangeInChain vm dataLen new []).past c
        else (probe fragmentFirst fragmentLast rest vm dataLen new).past c
      else discard
    else discard

/-! ### `ip4_full_reass_update` -/

/-- The nodes a packet can go to next. -/
inductive Ip4ReassNext where
  | input | drop | handoff
  /-- a node of a custom application -/
  | custom (index : ℕ)
deriving DecidableEq

/-- `error0` -/
inductive Ip4ReassError where
  | none | malformedPacket | duplicateFragment | limitReached
deriving DecidableEq

/-- What `ip4_full_reass_update` returns and what it writes through its pointers: `bi` is `*bi0`, `~0` being
    `none`; `next` and `error` are kept where the source leaves them alone. -/
structure Updated where
  rc : Ip4ReassRc
  vm : Vm
  reass : Ip4FullReass
  bi : Option ℕ
  next : Option Ip4ReassNext
  error : Ip4ReassError
  /-- the context was given back by `ip4_full_reass_finalize` -/
  completed : Bool

section
variable (b : VlibBuffer)

def fragmentFirst : ℕ := ip4GetFragmentOffsetBytes b
def fragmentLength : ℕ := (ip4Length b + 2 ^ 32 - ip4HeaderBytes b) % 2 ^ 32
def fragmentLast : ℕ := (fragmentFirst b + fragmentLength b + 2 ^ 32 - 1) % 2 ^ 32

end

/-- The check of `ip4_full_reass_inline` that a packet is no fragment. -/
def isWholePacket (b : VlibBuffer) : Bool := !ip4GetFragmentMore b && ip4GetFragmentOffset b == 0

/-- The check of `ip4_full_reass_inline` on the bounds of a fragment; 8 is the minimum length. -/
def isMalformed (b : VlibBuffer) : Bool :=
  fragmentFirst b > fragmentLast b || (fragmentFirst b + fragmentLength b) % 2 ^ 32 > 2 ^ 16 - 1 - 20 ||
    fragmentLength b < 8 && ip4GetFragmentMore b

/-- The next indices are stored before they are overwritten. -/
def storeNext (custom : Option (ℕ × ℕ)) (reass : Ip4FullReass) : Ip4FullReass :=
  match custom with
  | some (nextIndex, errorNextIndex) => { reass with nextIndex, errorNextIndex }
  | none => reass

/-- A fragment without `more_fragments` says where the datagram ends, whatever becomes of it. -/
def noteLast (reass : Ip4FullReass) (b : VlibBuffer) : Ip4FullReass :=
  { reass with lastPacketOctet := if ip4GetFragmentMore b then reass.lastPacketOctet else fragmentLast b }

/-- The fragment is among the ranges, or ignored: is the datagram complete? -/
def checkComplete (maxReassLen : ℕ) (isCustom : Bool) (bi : ℕ) (reass : Ip4FullReass) (p : Probe) :
    Option Updated :=
  let reass := { reass with ranges := p.ranges, dataLen := p.dataLen }
  if reass.lastPacketOctet ≠ noOctet ∧ reass.dataLen = (reass.lastPacketOctet + 1) % 2 ^ 32 then
    match ip4FullReassFinalize p.vm reass.ranges with
    | none => none
    | some (.ok, vm) =>
      some {
        rc := if reass.memoryOwnerThreadIndex = reass.sendoutThreadIndex then .ok else .handoff
        vm := vm, reass := reass, bi := reass.ranges.head?.map Range.bi
        next := some (if isCustom then .custom reass.nextIndex else .input), error := .none
        completed := true }
    | some (rc, vm) =>
      some ⟨rc, vm, reass, some bi, none, .none, false⟩
  else if p.consumed then
    some {
      rc := if reass.fragmentsN > maxReassLen then .tooManyFragments else .ok
      vm := p.vm, reass := reass, bi := none, next := none, error := .none, completed := false }
  else some ⟨.ok, p.vm, reass, some bi, some .drop, .duplicateFragment, false⟩

/-- `ip4_full_reass_update`; `custom` are the two next indices in the buffer of a custom application. -/
def ip4FullReassUpdate (maxReassLen : ℕ) (custom : Option (ℕ × ℕ)) (vm : Vm) (reass : Ip4FullReass)
    (bi : ℕ) : Option Updated :=
  let b := vm.buffer bi
  let new := Range.ofFragment bi (fragmentFirst b) (fragmentLast b)
  let reass := noteLast (storeNext custom reass) b
  if reass.ranges = [] then
    -- starting a new reassembly
    let p := ip4FullReassInsertRangeInChain vm reass.dataLen new []
    let reass := { reass with ranges := p.ranges, dataLen := p.dataLen }
    if p.rc ≠ .ok then some ⟨p.rc, vm, reass, some bi, none, .none, false⟩
    else some ⟨.ok, vm, { reass with minFragmentLength := ip4Length b, fragmentsN := 1 }, none, none, .none, false⟩
  else
    -- the estimated MTU read from the buffer shares its place with `fragment_first`, just written
    let reass := { reass with minFragmentLength := min (ip4Length b) (fragmentFirst b % 2 ^ 16) }
    let p := probe (fragmentFirst b) (fragmentLast b) reass.ranges vm reass.dataLen new
    if p.rc ≠ .ok then
      some ⟨p.rc, p.vm, { reass with ranges := p.ranges, dataLen := p.dataLen }, some bi, none, .none, false⟩
    else checkComplete maxReassLen custom.isSome bi { reass with fragmentsN := reass.fragmentsN + 1 } p

/-- What `ip4_full_reass_inline` does with a fragment of a context that the thread owns, up to the result of
    `ip4_full_reass_update`. -/
def ip4FullReassReceive (maxReassLen thread now : ℕ) (custom : Option (ℕ × ℕ)) (vm : Vm) (reass : Ip4FullReass)
    (bi : ℕ) : Option Updated :=
  ip4FullReassUpdate maxReassLen custom vm
    { reass with
      lastHeard := now
      sendoutThreadIndex := if fragmentFirst (vm.buffer bi) = 0 then thread else reass.sendoutThreadIndex } bi

/-- A fragment of the context, and when it comes. -/
structure Arrival where
  bi : ℕ
  custom : Option (ℕ × ℕ)
  now : ℕ
deriving DecidableEq

/-- What becomes of the last of some fragments of one context, where all before it were stored or ignored. -/
def ip4FullReassRun (maxReassLen thread : ℕ) : Vm → Ip4FullReass → List Arrival → Option Updated
  | _, _, [] => none
  | vm, reass, [a] => ip4FullReassReceive maxReassLen thread a.now a.custom vm reass a.bi
  | vm, reass, a :: as =>
    match ip4FullReassReceive maxReassLen thread a.now a.custom vm reass a.bi with
    | none => none
    | some u =>
      if u.rc = .ok ∧ u.completed = false then ip4FullReassRun maxReassLen thread u.vm u.reass as else none

end Vpp.Ip
