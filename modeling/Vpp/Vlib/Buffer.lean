import Vpp.Schemes.Bytes

/-! Packet buffers (`vlib/buffer.h`, `vlib/buffer_funcs.h`).

    A packet is a chain of buffers. Each buffer has a data area with some room in front of it, and a
    current region in that area; `NEXT_PRESENT` says that the packet goes on in `next_buffer`.

          pre_data        data
        |----------|------------------------------|
             ^ current_data   (< 0 in the head room)
             [#### current_length ####]

    Freeing and allocating are seen through two lists: the indices given back so far, in order, and
    what the allocator hands out next. -/

namespace Vpp.Vlib
open Vpp.Schemes

/-- A difference of lengths in a 32-bit variable. -/
def u32 (x : ℤ) : ℕ := (x % 2 ^ 32).toNat

/-- `ip_protocol_t`, as far as nodes of different features read it. -/
def ipProtocolTcp : ℕ := 6
def ipProtocolUdp : ℕ := 17

/-- `vlib_buffer_t`. The data area is a function of the offset from `b->data`. -/
structure VlibBuffer where
  currentData : ℤ
  currentLength : ℕ
  /-- `VLIB_BUFFER_NEXT_PRESENT` -/
  nextPresent : Bool
  nextBuffer : ℕ
  /-- `VLIB_BUFFER_TOTAL_LENGTH_VALID` -/
  totalLengthValid : Bool
  /-- a 32-bit field, up to multiples of 2³² -/
  totalLengthNotIncludingFirstBuffer : ℤ
  refCount : ℕ
  data : ℤ → Byte

namespace VlibBuffer

/-- The byte `k` of the current region: `vlib_buffer_get_current (b)[k]`. -/
def current (b : VlibBuffer) (k : ℕ) : Byte := b.data (b.currentData + k)

/-- What the current region holds. -/
def bytes (b : VlibBuffer) : Bytes := (List.range b.currentLength).map b.current

/-- `vlib_buffer_advance` -/
def advance (b : VlibBuffer) (l : ℕ) : VlibBuffer :=
  { b with currentData := b.currentData + l, currentLength := b.currentLength - l }

/-- `b->total_length_not_including_first_buffer -= n` -/
def lessTotal (b : VlibBuffer) (n : ℕ) : VlibBuffer :=
  { b with totalLengthNotIncludingFirstBuffer := b.totalLengthNotIncludingFirstBuffer - n }

/-- Write into the current region from byte `k` on. -/
def store (b : VlibBuffer) (k : ℕ) (bs : Bytes) : VlibBuffer :=
  { b with data := fun i =>
      if b.currentData + k ≤ i ∧ i < b.currentData + k + bs.length then bs.getD (i - (b.currentData + k)).toNat 0
      else b.data i }

/-- The fields of `vlib_buffer_template_t`, which a buffer gets when its last owner frees it. -/
def reset (b : VlibBuffer) : VlibBuffer :=
  { b with currentData := 0, currentLength := 0, nextPresent := false, nextBuffer := 0
           totalLengthValid := false, refCount := 1 }

end VlibBuffer

/-- The buffers a thread works with. -/
structure Vm where
  buffer : ℕ → VlibBuffer
  /-- buffer indices are below this -/
  nBuffers : ℕ
  /-- `vlib_buffer_get_default_data_size` -/
  dataSize : ℕ
  available : List ℕ
  freed : List ℕ

namespace Vm

def modify (vm : Vm) (bi : ℕ) (f : VlibBuffer → VlibBuffer) : Vm :=
  { vm with buffer := Function.update vm.buffer bi (f (vm.buffer bi)) }

/-- The first `n` buffers of the packet that starts at `bi`. -/
def chainFrom (buffer : ℕ → VlibBuffer) : ℕ → ℕ → List ℕ
  | 0, _ => []
  | n + 1, bi => bi :: if (buffer bi).nextPresent then chainFrom buffer n (buffer bi).nextBuffer else []

/-- The packet that starts at `bi`: no packet has more buffers than there are. -/
def chain (vm : Vm) (bi : ℕ) : List ℕ := chainFrom vm.buffer vm.nBuffers bi

/-- What the buffers hold, one after the other. -/
def contents (vm : Vm) (bis : List ℕ) : Bytes := bis.flatMap fun bi => (vm.buffer bi).bytes

/-- One buffer goes back to its pool; a shared one only loses a reference. -/
def putBack (vm : Vm) (bi : ℕ) : Vm :=
  { vm.modify bi fun b => if b.refCount ≤ 1 then b.reset else { b with refCount := b.refCount - 1 } with
    freed := vm.freed ++ [bi] }

/-- `vlib_buffer_free_one`, which frees what is chained behind the buffer too. -/
def vlibBufferFreeOne (vm : Vm) (bi : ℕ) : Vm := (vm.chain bi).foldl putBack vm

def vlibBufferFree (vm : Vm) (buffers : List ℕ) : Vm := buffers.foldl vlibBufferFreeOne vm

/-- `vlib_buffer_alloc`: up to `n` buffers, with the fields of the template. -/
def vlibBufferAlloc (vm : Vm) (n : ℕ) : List ℕ × Vm :=
  (vm.available.take n,
    (vm.available.take n).foldl (fun vm bi => vm.modify bi VlibBuffer.reset)
      { vm with available := vm.available.drop n })

def vlibBufferLengthInChain (vm : Vm) (bi : ℕ) : ℕ :=
  let b := vm.buffer bi
  if !b.nextPresent then b.currentLength
  else if b.totalLengthValid then b.currentLength + (b.totalLengthNotIncludingFirstBuffer % 2 ^ 32).toNat
  else ((vm.chain bi).map fun i => (vm.buffer i).currentLength).sum

/-- Copy `n` bytes between two data areas, which may be the same and overlap. -/
def copy (vm : Vm) (dstB : ℕ) (dst : ℤ) (srcB : ℕ) (src : ℤ) (n : ℕ) : Vm :=
  vm.modify dstB fun b =>
    { b with data := fun i =>
        if dst ≤ i ∧ i < dst + n then (vm.buffer srcB).data (src + (i - dst)) else b.data i }

end Vm

/-! ### `vlib_buffer_chain_linearize` -/

/-- The local variables of `vlib_buffer_chain_linearize`. A pointer into a data area is its offset. -/
structure Linearize where
  vm : Vm
  b : ℕ
  src : ℤ
  srcLen : ℕ
  dstB : ℕ
  dst : ℤ
  dstLen : ℕ
  remLen : ℕ
  nBuffers : ℕ
  toFree : ℕ

/-- What becomes of one round of the copy loop. -/
inductive Round where
  | go (s : Linearize)
  /-- `break`: a malformed chain -/
  | stop (s : Linearize)
  /-- `return 0` -/
  | fail (vm : Vm)

namespace Linearize

/-- `while (0 == src_len)`: on to the next buffer that holds something. -/
def seekSrc : ℕ → Linearize → Linearize
  | 0, s => s
  | fuel + 1, s =>
    if s.srcLen = 0 then
      if (s.vm.buffer s.b).nextPresent then
        let b := (s.vm.buffer s.b).nextBuffer
        seekSrc fuel { s with b := b, src := (s.vm.buffer b).currentData
                              srcLen := (s.vm.buffer b).currentLength }
      else s
    else s

/-- `VLIB_BUFFER_LINEARIZE_MAX` -/
def linearizeMax : ℕ := 64

/-- The links of a new destination chain. -/
def link (vm : Vm) : List ℕ → Vm
  | bi :: bj :: bis => link (vm.modify bi fun b => { b with nextPresent := true, nextBuffer := bj }) (bj :: bis)
  | _ => vm

/-- The next destination is empty, and may begin in its head room. -/
def startDst (s : Linearize) (dstB : ℕ) : Linearize :=
  let vm := s.vm.modify dstB fun b => { b with currentData := min 0 b.currentData, currentLength := 0 }
  let cur := (vm.buffer dstB).currentData
  { s with vm := vm, dstB := dstB, nBuffers := s.nBuffers + 1, dst := cur
           dstLen := ((s.vm.dataSize - cur) % 2 ^ 16).toNat }

/-- `if (0 == dst_len)`: on to the next destination; where that is shared, to a new chain. -/
def seekDst (s : Linearize) : Round :=
  if s.dstLen = 0 then
    if !(s.vm.buffer s.dstB).nextPresent then .stop s
    else
      let next := (s.vm.buffer s.dstB).nextBuffer
      if (s.vm.buffer next).refCount = 1 then .go (s.startDst next)
      else
        let n := (s.remLen + s.vm.dataSize - 1) / s.vm.dataSize
        if n > linearizeMax then .fail s.vm
        else
          let (bis, vm) := s.vm.vlibBufferAlloc n
          if bis.length ≠ n then .fail (vm.vlibBufferFree bis)
          else
            match bis with
            | [] => .stop s
            | bi :: _ =>
              let vm := (link vm bis).modify s.dstB fun b => { b with nextBuffer := bi }
              .go ({ s with vm := vm, toFree := next }.startDst bi)
  else .go s

/-- Copy what both sides have room for. -/
def copyStep (s : Linearize) : Linearize :=
  let copyLen := min s.srcLen s.dstLen
  let vm := (s.vm.copy s.dstB s.dst s.b s.src copyLen).modify s.dstB fun b =>
    { b with currentLength := b.currentLength + copyLen }
  { s with vm := vm, dst := s.dst + copyLen, src := s.src + copyLen, dstLen := s.dstLen - copyLen
           srcLen := s.srcLen - copyLen, remLen := (s.remLen + 2 ^ 16 - copyLen) % 2 ^ 16 }

/-- `while (rem_len > 0)`. Each round copies something unless the chain is malformed; then it may be that
    the loop does not end. -/
def loop : ℕ → Linearize → Option Round
  | fuel, s =>
    if s.remLen = 0 then some (.stop s)
    else
      match fuel with
      | 0 => none
      | fuel + 1 =>
        match (seekSrc s.vm.nBuffers s).seekDst with
        | .go s => loop fuel s.copyStep
        | r => some r

/-- The resulting chain is smaller than the original, cut it there. -/
def cutBehind (vm : Vm) (dstB nBuffers : ℕ) : Vm :=
  if (vm.buffer dstB).nextPresent then
    let cut := (vm.modify dstB fun b => { b with nextPresent := false }).vlibBufferFreeOne
      (vm.buffer dstB).nextBuffer
    if nBuffers = 1 then
      cut.modify dstB fun b => { b with totalLengthValid := false, totalLengthNotIncludingFirstBuffer := 0 }
    else cut
  else vm

/-- What follows the loop. -/
def finish (s : Linearize) : ℕ × Vm :=
  let vm := s.vm.modify s.b (·.lessTotal s.remLen)
  let vm := if s.toFree ≠ 0 then vm.vlibBufferFreeOne s.toFree else vm
  (s.nBuffers, cutBehind vm s.dstB s.nBuffers)

end Linearize

/-- `vlib_buffer_chain_linearize`: the packet in as few buffers as its data needs. It returns the number
    of them, or 0, or does not return at all. -/
def vlibBufferChainLinearize (vm : Vm) (bi : ℕ) : Option (ℕ × Vm) :=
  let b := vm.buffer bi
  if !b.nextPresent then some (1, vm)
  else if b.refCount ≠ 1 then some (0, vm)
  else
    let length := vm.vlibBufferLengthInChain bi
    let remLen := (length - b.currentLength) % 2 ^ 16
    let dst := b.currentData + b.currentLength
    let dstLen := ((vm.dataSize - dst) % 2 ^ 16).toNat
    let vm := vm.modify bi (·.lessTotal dstLen)
    match Linearize.loop length
        { vm := vm, b := bi, src := 0, srcLen := 0, dstB := bi, dst := dst, dstLen := dstLen
          remLen := remLen, nBuffers := 1, toFree := 0 } with
    | none => none
    | some (.fail vm) => some (0, vm)
    | some (.stop s) => some s.finish
    | some (.go s) => some s.finish

end Vpp.Vlib
