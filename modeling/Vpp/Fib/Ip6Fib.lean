import Vpp.Schemes.LongestMatch
import Vpp.Schemes.Run
import Vpp.Vppinfra.Bitmap

/-! The IPv6 FIB (`vnet/fib/ip6_fib.c`, `vnet/fib/ip6_fib.h`).

    All VRFs share two tables, one for forwarding and one for all routes. A table is a hash table whose key is a masked
    address, the index of the VRF and the length of the prefix. A lookup goes through the lengths in use, from the
    greatest on, and masks its key a little more each time:

        refcounts[len]  ──▶  bitmap, bit 128 - len  ──▶  prefix_lengths_in_search_order
        key: addr & mask[l₁], then & mask[l₂], ..        l₁ > l₂ > ..

    The reference counts are `i32`. They are counted up by every insertion, also of a prefix that is present. -/

namespace Vpp.Fib
open Vpp.Schemes Vpp.Vppinfra
open Function (update)

/-- `ip6_main.fib_masks[len]`: the first `len` bits. -/
def fibMasks (len : ℕ) : BitVec 128 := BitVec.allOnes 128 <<< (128 - len)

/-- `kv.key[2]`: the index of the VRF and the length of the prefix. -/
def fibKey (fibIndex : BitVec 32) (len : ℕ) : BitVec 64 := (fibIndex.setWidth 64 <<< 32) ||| BitVec.ofNat 64 len

/-- `ip6_fib_table_instance_t`. The hash table is a finite map. -/
structure Ip6FibTableInstance where
  ip6Hash : BitVec 128 × BitVec 64 → Option (BitVec 32)
  nonEmptyDstAddressLengthBitmap : List Uword
  prefixLengthsInSearchOrder : List ℕ
  dstAddressLengthRefcounts : Fin 129 → BitVec 32

inductive Ip6FibTableInstanceType where
  | fwding | nonFwding
  deriving DecidableEq

abbrev Ip6FibTable := Ip6FibTableInstanceType → Ip6FibTableInstance

def fibNodeIndexInvalid : BitVec 32 := BitVec.allOnes 32

/-! ### Changes -/

def computePrefixLengthsInSearchOrder (table : Ip6FibTableInstance) : Ip6FibTableInstance :=
  { table with
    prefixLengthsInSearchOrder := (clibBitmapForeach table.nonEmptyDstAddressLengthBitmap).map (128 - ·) }

/-- Both `ip6_fib_table_entry_insert` and `ip6_fib_table_fwding_dpo_update`. -/
def tableInsert (table : Ip6FibTableInstance) (fibIndex : BitVec 32) (addr : BitVec 128) (len : Fin 129)
    (value : BitVec 32) : Ip6FibTableInstance :=
  let refcount := table.dstAddressLengthRefcounts len
  let table := { table with
    ip6Hash := update table.ip6Hash (addr &&& fibMasks len, fibKey fibIndex len) (some value)
    dstAddressLengthRefcounts := update table.dstAddressLengthRefcounts len (refcount + 1) }
  if refcount = 0 then
    computePrefixLengthsInSearchOrder { table with
      nonEmptyDstAddressLengthBitmap := clibBitmapSet table.nonEmptyDstAddressLengthBitmap (128 - len) true }
  else table

/-- Both `ip6_fib_table_entry_remove` and `ip6_fib_table_fwding_dpo_remove`. -/
def tableRemove (table : Ip6FibTableInstance) (fibIndex : BitVec 32) (addr : BitVec 128) (len : Fin 129) :
    Ip6FibTableInstance :=
  let refcount := table.dstAddressLengthRefcounts len - 1
  let table := { table with
    ip6Hash := update table.ip6Hash (addr &&& fibMasks len, fibKey fibIndex len) none
    dstAddressLengthRefcounts := update table.dstAddressLengthRefcounts len refcount }
  if refcount = 0 then
    computePrefixLengthsInSearchOrder { table with
      nonEmptyDstAddressLengthBitmap := clibBitmapSet table.nonEmptyDstAddressLengthBitmap (128 - len) false }
  else table

def ip6FibTableEntryInsert (fib : Ip6FibTable) (fibIndex : BitVec 32) (addr : BitVec 128) (len : Fin 129)
    (fibEntryIndex : BitVec 32) : Ip6FibTable :=
  update fib .nonFwding (tableInsert (fib .nonFwding) fibIndex addr len fibEntryIndex)

def ip6FibTableEntryRemove (fib : Ip6FibTable) (fibIndex : BitVec 32) (addr : BitVec 128) (len : Fin 129) :
    Ip6FibTable :=
  update fib .nonFwding (tableRemove (fib .nonFwding) fibIndex addr len)

def ip6FibTableFwdingDpoUpdate (fib : Ip6FibTable) (fibIndex : BitVec 32) (addr : BitVec 128) (len : Fin 129)
    (dpoiIndex : BitVec 32) : Ip6FibTable :=
  update fib .fwding (tableInsert (fib .fwding) fibIndex addr len dpoiIndex)

def ip6FibTableFwdingDpoRemove (fib : Ip6FibTable) (fibIndex : BitVec 32) (addr : BitVec 128) (len : Fin 129) :
    Ip6FibTable :=
  update fib .fwding (tableRemove (fib .fwding) fibIndex addr len)

/-! ### Lookups -/

/-- The loop of the lookups, which masks the key in place. -/
def lookupLoop (table : Ip6FibTableInstance) (fibIndex : BitVec 32) : BitVec 128 → List ℕ → Option (BitVec 32)
  | _, [] => none
  | key, dstAddressLength :: lens =>
    let key := key &&& fibMasks dstAddressLength
    match table.ip6Hash (key, fibKey fibIndex dstAddressLength) with
    | some value => some value
    | none => lookupLoop table fibIndex key lens

/-- `ip6_fib_table_lookup`: no match longer than `len`. -/
def ip6FibTableLookup (fib : Ip6FibTable) (fibIndex : BitVec 32) (addr : BitVec 128) (len : BitVec 32) : BitVec 32 :=
  let lens := (fib .nonFwding).prefixLengthsInSearchOrder.dropWhile fun l => decide (l > len.toNat)
  (lookupLoop (fib .nonFwding) fibIndex addr lens).getD fibNodeIndexInvalid

def ip6FibTableLookupExactMatch (fib : Ip6FibTable) (fibIndex : BitVec 32) (addr : BitVec 128) (len : Fin 129) :
    BitVec 32 :=
  ((fib .nonFwding).ip6Hash (addr &&& fibMasks len, fibKey fibIndex len)).getD fibNodeIndexInvalid

def ip6FibTableFwdingLookup (fib : Ip6FibTable) (fibIndex : BitVec 32) (dst : BitVec 128) : BitVec 32 :=
  (lookupLoop (fib .fwding) fibIndex dst (fib .fwding).prefixLengthsInSearchOrder).getD 0

/-! ### Runs -/

inductive FibOp where
  | entryInsert (fibIndex : BitVec 32) (addr : BitVec 128) (len : Fin 129) (fibEntryIndex : BitVec 32)
  | entryRemove (fibIndex : BitVec 32) (addr : BitVec 128) (len : Fin 129)
  | fwdingDpoUpdate (fibIndex : BitVec 32) (addr : BitVec 128) (len : Fin 129) (dpoiIndex : BitVec 32)
  | fwdingDpoRemove (fibIndex : BitVec 32) (addr : BitVec 128) (len : Fin 129)

/-- The table, the VRF, the prefix and the value, where there is one, of an operation. -/
structure FibWrite where
  type : Ip6FibTableInstanceType
  fibIndex : BitVec 32
  addr : BitVec 128
  len : Fin 129
  value : Option (BitVec 32)

def FibOp.write : FibOp → FibWrite
  | .entryInsert fibIndex addr len fibEntryIndex => ⟨.nonFwding, fibIndex, addr, len, some fibEntryIndex⟩
  | .entryRemove fibIndex addr len => ⟨.nonFwding, fibIndex, addr, len, none⟩
  | .fwdingDpoUpdate fibIndex addr len dpoiIndex => ⟨.fwding, fibIndex, addr, len, some dpoiIndex⟩
  | .fwdingDpoRemove fibIndex addr len => ⟨.fwding, fibIndex, addr, len, none⟩

/-- The first bits of an address, as a number. -/
def firstBits (addr : BitVec 128) (len : ℕ) : ℕ := addr.toNat / 2 ^ (128 - len)

/-- The tables, with the prefixes that are present in each, by VRF, and the values last stored for them. -/
structure FibHistory where
  fib : Ip6FibTable
  routes : Ip6FibTableInstanceType → BitVec 32 → Routes (BitVec 32)

def fibStep (fib : Ip6FibTable) : FibOp → Ip6FibTable
  | .entryInsert fibIndex addr len fibEntryIndex => ip6FibTableEntryInsert fib fibIndex addr len fibEntryIndex
  | .entryRemove fibIndex addr len => ip6FibTableEntryRemove fib fibIndex addr len
  | .fwdingDpoUpdate fibIndex addr len dpoiIndex => ip6FibTableFwdingDpoUpdate fib fibIndex addr len dpoiIndex
  | .fwdingDpoRemove fibIndex addr len => ip6FibTableFwdingDpoRemove fib fibIndex addr len

def FibHistory.step (s : FibHistory) (op : FibOp) : FibHistory where
  fib := fibStep s.fib op
  routes :=
    let w := op.write
    update s.routes w.type (update (s.routes w.type) w.fibIndex
      ((s.routes w.type w.fibIndex).set w.len (firstBits w.addr w.len) w.value))

/-- No routes at all: the tables are zero. -/
def FibHistory.init : FibHistory := ⟨fun _ => ⟨fun _ => none, [], [], fun _ => 0⟩, fun _ _ _ _ => none⟩

/-- A removal names a prefix that is present. -/
def FibHistory.RemovesPresent (s : FibHistory) (op : FibOp) : Prop :=
  op.write.value = none →
    s.routes op.write.type op.write.fibIndex op.write.len (firstBits op.write.addr op.write.len) ≠ none
deriving Decidable

/-- An insertion does not overflow the reference count of its length. -/
def FibHistory.CountFits (s : FibHistory) (op : FibOp) : Prop :=
  op.write.value ≠ none → ((s.fib op.write.type).dstAddressLengthRefcounts op.write.len).toNat < 2 ^ 31 - 1
deriving Decidable

end Vpp.Fib
