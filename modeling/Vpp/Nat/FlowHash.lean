import Mathlib

/-! The flow hash of the NAT44-ED plugin (`plugins/nat/nat44-ed/nat44_ed_inlines.h`, `nat44_ed.c`).

    A session is found by the six-tuple of a packet in either direction, and so are the static mappings, all in one
    table:

        i2o.match   (saddr, sport, daddr, dport, fib, proto)   ->  session
        o2i.match                        "                     ->  session
        static      (0, 0, external address, port, 0, proto)   ->  mapping -/

namespace Vpp.Nat
open Function (update)

/-- `nat_6t_t`, with the ports in network byte order -/
structure Nat6t where
  saddr : BitVec 32
  daddr : BitVec 32
  sport : BitVec 16
  dport : BitVec 16
  fibIndex : BitVec 24
  proto : BitVec 8
deriving DecidableEq

/-- The key of `clib_bihash_kv_16_8_t`. -/
abbrev EdKey := BitVec 64 × BitVec 64

def initEdK (lAddr : BitVec 32) (lPort : BitVec 16) (rAddr : BitVec 32) (rPort : BitVec 16) (fibIndex : BitVec 32)
    (proto : BitVec 8) : EdKey :=
  (rAddr.setWidth 64 <<< 32 ||| lAddr.setWidth 64,
    rPort.setWidth 64 <<< 48 ||| lPort.setWidth 64 <<< 32 ||| (fibIndex <<< 8).setWidth 64 ||| proto.setWidth 64)

/-- `nat_6t_flow_to_ed_k` -/
def Nat6t.edK (t : Nat6t) : EdKey := initEdK t.saddr t.sport t.daddr t.dport (t.fibIndex.setWidth 32) t.proto

/-- The value of an entry: `thread_index << 32 | session_index`, or the index of a static mapping. The constructor says
    who wrote it, which nobody reads. -/
inductive FlowEntry where
  | session (threadIndex sessionIndex : ℕ)
  | staticMapping (index : ℕ)
deriving DecidableEq

abbrev FlowHash := EdKey → Option FlowEntry

/-- `clib_bihash_add_del_16_8`, with the values of `is_add`: deletion, overwriting, and not overwriting -/
inductive IsAdd where
  | del | add | addNew
deriving DecidableEq

/-- The result is whether the call returns 0. An addition can fail for reasons of its own (`fails`). -/
def FlowHash.addDel (h : FlowHash) (fails : Bool) (key : EdKey) (value : FlowEntry) : IsAdd → Bool × FlowHash
  | .del => ((h key).isSome, update h key none)
  | .add => if fails then (false, h) else (true, update h key (some value))
  | .addNew => if fails || (h key).isSome then (false, h) else (true, update h key (some value))

def nat44EdSmInitO2iK (eAddr : BitVec 32) (ePort : BitVec 16) (fibIndex : BitVec 32) (proto : BitVec 8) : EdKey :=
  initEdK 0 0 eAddr ePort fibIndex proto

/-- `nat44_ed_sm_o2i_lookup`: whether there is a mapping -/
def nat44EdSmO2iLookup (h : FlowHash) (addr : BitVec 32) (port : BitVec 16) (fibIndex : BitVec 32) (proto : BitVec 8) :
    Bool :=
  (h (nat44EdSmInitO2iK addr port fibIndex proto)).isSome

structure SnatSession where
  i2o : Nat6t
  o2i : Nat6t
  /-- `SNAT_SESSION_FLAG_STATIC_MAPPING` -/
  staticMapping : Bool
deriving DecidableEq

/-- `clib_memset` -/
def zeroTuple : Nat6t := { saddr := 0, daddr := 0, sport := 0, dport := 0, fibIndex := 0, proto := 0 }

def SnatSession.zero : SnatSession := { i2o := zeroTuple, o2i := zeroTuple, staticMapping := false }

def natEdSesI2oFlowHashAddDel (h : FlowHash) (fails : Bool) (threadIdx sessionIdx : ℕ) (s : SnatSession)
    (isAdd : IsAdd) : Bool × FlowHash :=
  h.addDel fails s.i2o.edK (.session threadIdx sessionIdx) isAdd

def natEdSesO2iFlowHashAddDel (h : FlowHash) (fails : Bool) (threadIdx sessionIdx : ℕ) (s : SnatSession)
    (isAdd : IsAdd) : Bool × FlowHash :=
  if isAdd ≠ .del ∧ !s.staticMapping ∧ nat44EdSmO2iLookup h s.o2i.daddr s.o2i.dport 0 s.o2i.proto then (false, h)
  else h.addDel fails s.o2i.edK (.session threadIdx sessionIdx) isAdd

section
variable {h h' : FlowHash} {fails ok : Bool} {t i : ℕ} {s : SnatSession}

theorem natEdSesI2oFlowHashAddDel_add (hadd : natEdSesI2oFlowHashAddDel h fails t i s .add = (ok, h')) :
    h' = bif ok then update h s.i2o.edK (some (.session t i)) else h := by
  rw [natEdSesI2oFlowHashAddDel, FlowHash.addDel] at hadd
  split_ifs at hadd <;> cases hadd <;> rfl

theorem natEdSesI2oFlowHashAddDel_fails
    (hadd : natEdSesI2oFlowHashAddDel h fails t i s .add = (false, h')) : fails := by
  by_contra hfails
  simp [natEdSesI2oFlowHashAddDel, FlowHash.addDel, hfails] at hadd

theorem natEdSesO2iFlowHashAddDel_add {isAdd : IsAdd} (hne : isAdd ≠ .del)
    (hadd : natEdSesO2iFlowHashAddDel h fails t i s isAdd = (ok, h')) :
    h' = bif ok then update h s.o2i.edK (some (.session t i)) else h := by
  cases isAdd with
  | del => exact absurd rfl hne
  | _ =>
    rw [natEdSesO2iFlowHashAddDel, FlowHash.addDel] at hadd
    split_ifs at hadd <;> cases hadd <;> rfl

/-- An addition that must not overwrite finds no entry, and for a dynamic session no static mapping either. -/
theorem natEdSesO2iFlowHashAddDel_addNew (hs : s.staticMapping = false)
    (hadd : natEdSesO2iFlowHashAddDel h fails t i s .addNew = (ok, h')) :
    (ok = true ∧ nat44EdSmO2iLookup h s.o2i.daddr s.o2i.dport 0 s.o2i.proto = false ∧ h s.o2i.edK = none ∧
      h' = update h s.o2i.edK (some (.session t i))) ∨ (ok = false ∧ h' = h) := by
  rw [natEdSesO2iFlowHashAddDel] at hadd
  split_ifs at hadd with hmapped
  · cases hadd
    exact Or.inr ⟨rfl, rfl⟩
  · rw [FlowHash.addDel] at hadd
    split_ifs at hadd with hrefused
    · cases hadd
      exact Or.inr ⟨rfl, rfl⟩
    · cases hadd
      refine Or.inl ⟨rfl, ?_, ?_, rfl⟩
      · simpa [hs] using hmapped
      · simp only [Bool.or_eq_true, not_or, Option.not_isSome_iff_eq_none] at hrefused
        exact hrefused.2

end

/-! ### Byte order -/

/-- `clib_host_to_net_u16`, `clib_net_to_host_u16` -/
def hostToNetU16 (x : BitVec 16) : BitVec 16 := BitVec.ofNat 16 (x.toNat % 256 * 256 + x.toNat / 256)

@[simp] theorem hostToNetU16_hostToNetU16 (x : BitVec 16) : hostToNetU16 (hostToNetU16 x) = x := by
  have hx := x.isLt
  have hswap : (hostToNetU16 x).toNat = x.toNat % 256 * 256 + x.toNat / 256 :=
    Nat.mod_eq_of_lt (by omega)
  have hlow : (x.toNat % 256 * 256 + x.toNat / 256) % 256 = x.toNat / 256 := by omega
  have hhigh : (x.toNat % 256 * 256 + x.toNat / 256) / 256 = x.toNat % 256 := by omega
  refine BitVec.eq_of_toNat_eq ?_
  rw [hostToNetU16, BitVec.toNat_ofNat, hswap, hlow, hhigh, Nat.div_add_mod', Nat.mod_eq_of_lt hx]

end Vpp.Nat
