import Vpp.Nat.Ports
import Vpp.Schemes.Pool
import Vpp.Schemes.Run

/-! Creation and deletion of NAT44-ED sessions (`nat44_ed_in2out.c`, `nat44_ed_out2in.c`, `nat44_ed_inlines.h`).

    A creation takes a session from the pool of its thread, fills in the two flows and puts them into the flow hash,
    each at the moment it is known. Where anything fails, `nat_ed_session_delete` takes both matches out by key, in
    the form they have by then:

        slow_path_ed, dynamic     o2i (new)        i2o (overwriting)
        slow_path_ed, static      o2i (new)        i2o (overwriting)
        static mapping            o2i (overwriting)   i2o (overwriting)
        unknown protocol          i2o (overwriting)   o2i (overwriting)

    What is found in tables that no creation writes (the fib, the static mappings, the interfaces, the lists of least
    recently used sessions) comes in with the packet. -/

namespace Vpp.Nat
open Vpp.Schemes Function SnatSession

/-- The sessions of each thread, and the flow hash. -/
structure Tables where
  sessions : ℕ → Pool SnatSession
  flowHash : FlowHash

namespace Tables

/-- The live session at an index of a thread. -/
def session? (tb : Tables) (t i : ℕ) : Option SnatSession := (tb.sessions t).get? i

end Tables

/-! ### Deletion -/

/-- The two deletions of `nat44_ed_free_session_data` and of `nat_ed_session_delete`. -/
def delFlows (h : FlowHash) (t i : ℕ) (s : SnatSession) : FlowHash :=
  (natEdSesO2iFlowHashAddDel (natEdSesI2oFlowHashAddDel h false t i s .del).2 false t i s .del).2

def natEdSessionDelete (tb : Tables) (t i : ℕ) (s : SnatSession) : Tables where
  sessions := update tb.sessions t ((tb.sessions t).put i)
  flowHash := delFlows tb.flowHash t i s

def nat44EdFreeSessionData (tb : Tables) (t i : ℕ) (s : SnatSession) : Tables :=
  { tb with flowHash := delFlows tb.flowHash t i s }

/-- The two together, as they follow each other wherever a session ends. -/
def freeSession (tb : Tables) (t i : ℕ) : Tables :=
  match tb.session? t i with
  | some s => natEdSessionDelete (nat44EdFreeSessionData tb t i s) t i s
  | none => tb

/-- `nat_lru_free_one`, where `expired` is the session found at the head of one of the lists -/
def natLruFreeOne (tb : Tables) (t : ℕ) (expired : Option ℕ) : Tables :=
  match expired with
  | some i => freeSession tb t i
  | none => tb

/-! ### Creation -/

def nat6tFlowInit (saddr : BitVec 32) (sport : BitVec 16) (daddr : BitVec 32) (dport : BitVec 16) (fibIndex : BitVec 32)
    (proto : BitVec 8) : Nat6t :=
  { saddr := saddr, daddr := daddr, sport := sport, dport := dport, fibIndex := fibIndex.setWidth 24, proto := proto }

def natEdSessionAlloc (tb : Tables) (t : ℕ) (expired : Option ℕ) : Tables × ℕ :=
  let tb := natLruFreeOne tb t expired
  let (pool, i) := (tb.sessions t).alloc .zero
  ({ tb with sessions := update tb.sessions t pool }, i)

/-- How far a creation got with a session: whether it succeeded, the session, and the flow hash. -/
structure Filled where
  ok : Bool
  session : SnatSession
  flowHash : FlowHash

/-- A session is allocated and filled; if that fails it is deleted as it is. -/
def createSession (tb : Tables) (t : ℕ) (expired : Option ℕ) (fill : FlowHash → ℕ → Filled) : Tables :=
  let (tb, i) := natEdSessionAlloc tb t expired
  let f := fill tb.flowHash i
  if f.ok then
    { sessions := update tb.sessions t ((tb.sessions t).set i f.session), flowHash := f.flowHash }
  else natEdSessionDelete { tb with flowHash := f.flowHash } t i f.session

/-- What `snat_static_mapping_match` finds for the local side. -/
inductive StaticMatch where
  | none
  | identity
  | mapped (smAddr : BitVec 32) (smPort : BitVec 16)
deriving DecidableEq

/-- A packet that `slow_path_ed` is called for. -/
structure SlowPathEd where
  sm : SnatMain
  lAddr : BitVec 32
  rAddr : BitVec 32
  lPort : BitVec 16
  rPort : BitVec 16
  proto : BitVec 8
  rxFibIndex : BitVec 32
  txSwIfIndex : BitVec 32
  /-- `get_tx_fib_index` -/
  txFibIndex : BitVec 32
  /-- `nat44_ed_maximum_sessions_exceeded` -/
  exceeded : Bool
  /-- TCP, but not the start of a connection -/
  nonSyn : Bool
  staticMatch : StaticMatch
  /-- `nat44_ed_external_sm_lookup` of the remote side, for hairpinning -/
  externalSm : Option (BitVec 32 × BitVec 16)
  /-- Sessions found expired, when the maximum is exceeded and in the allocation. -/
  expiredAtMaximum : Option ℕ
  expired : Option ℕ
  chance : ℕ → Chance
  o2iFails : Bool
  i2oFails : Bool

namespace SlowPathEd

/-- `daddr`, `dport` -/
def remote (p : SlowPathEd) : BitVec 32 × BitVec 16 := p.externalSm.getD (p.rAddr, p.rPort)

/-- The match of `o2i` before an outside address and port are known. -/
def placeholder (p : SlowPathEd) : Nat6t :=
  nat6tFlowInit p.remote.1 p.remote.2 p.remote.1 0 p.txFibIndex p.proto

def o2iOfMapping (p : SlowPathEd) (smAddr : BitVec 32) (smPort : BitVec 16) : Nat6t :=
  if p.proto = ipProtocolIcmp then nat6tFlowInit p.remote.1 smPort smAddr smPort p.txFibIndex p.proto
  else nat6tFlowInit p.remote.1 p.remote.2 smAddr smPort p.txFibIndex p.proto

def i2o (p : SlowPathEd) : Nat6t := nat6tFlowInit p.lAddr p.lPort p.rAddr p.rPort p.rxFibIndex p.proto

/-- The last part of `slow_path_ed`, common to dynamic and static sessions. -/
def addI2o (p : SlowPathEd) (h : FlowHash) (t i : ℕ) (s : SnatSession) : Filled :=
  let s := { s with i2o := p.i2o }
  let (ok, h) := natEdSesI2oFlowHashAddDel h p.i2oFails t i s .add
  { ok := ok, session := s, flowHash := h }

def fillDynamic (p : SlowPathEd) (t : ℕ) (h : FlowHash) (i : ℕ) : Filled :=
  let s := { zero with o2i := p.placeholder }
  let a := natEdAllocAddrAndPort p.sm h p.rxFibIndex p.txSwIfIndex p.proto t i p.lAddr p.rAddr (p.sm.snatThreadIndex t)
    s p.lPort p.chance
  if a.outside.isSome then p.addI2o a.flowHash t i a.session
  else { ok := false, session := a.session, flowHash := a.flowHash }

def fillStatic (p : SlowPathEd) (smAddr : BitVec 32) (smPort : BitVec 16) (t : ℕ) (h : FlowHash) (i : ℕ) : Filled :=
  let s := { zero with o2i := p.o2iOfMapping smAddr smPort, staticMapping := true }
  match natEdSesO2iFlowHashAddDel h p.o2iFails t i s .addNew with
  | (true, h) => p.addI2o h t i s
  | (false, h) => { ok := false, session := s, flowHash := h }

/-- The maximum is made up for by an expired session. -/
def belowMaximum (p : SlowPathEd) (tb : Tables) (t : ℕ) : Tables :=
  if p.exceeded then natLruFreeOne tb t p.expiredAtMaximum else tb

end SlowPathEd

def slowPathEd (tb : Tables) (t : ℕ) (p : SlowPathEd) : Tables :=
  if p.exceeded && p.expiredAtMaximum.isNone then tb
  else
    match p.staticMatch with
    | .identity => p.belowMaximum tb t
    | .none =>
      if p.nonSyn then p.belowMaximum tb t
      else createSession (p.belowMaximum tb t) t p.expired (p.fillDynamic t)
    | .mapped smAddr smPort =>
      if p.nonSyn then p.belowMaximum tb t
      else createSession (p.belowMaximum tb t) t p.expired (p.fillStatic smAddr smPort t)

inductive TwiceNatType where
  | disabled | twiceNat | twiceNatSelf
deriving DecidableEq

/-- The call of `create_session_for_static_mapping_ed`. -/
structure ForStaticMapping where
  sm : SnatMain
  i2oAddr : BitVec 32
  i2oPort : BitVec 16
  i2oFibIndex : BitVec 32
  o2iAddr : BitVec 32
  o2iPort : BitVec 16
  o2iFibIndex : BitVec 32
  proto : BitVec 8
  /-- `ip->src_address`, `ip->protocol`, and the source port -/
  srcAddress : BitVec 32
  ipProtocol : BitVec 8
  l4SrcPort : BitVec 16
  exceeded : Bool
  expired : Option ℕ
  twiceNat : TwiceNatType
  /-- `mapping->pool_addr`, where the mapping asks for this address -/
  exactAddress : Option (BitVec 32)
  chance : ℕ → Chance
  o2iFails : Bool
  i2oFails : Bool

namespace ForStaticMapping

def extHostPort (c : ForStaticMapping) : BitVec 16 := if c.proto = ipProtocolIcmp then 0 else c.l4SrcPort

def o2i (c : ForStaticMapping) : Nat6t :=
  if c.proto = ipProtocolIcmp then
    nat6tFlowInit c.srcAddress c.o2iPort c.o2iAddr c.o2iPort c.o2iFibIndex c.ipProtocol
  else nat6tFlowInit c.srcAddress c.extHostPort c.o2iAddr c.o2iPort c.o2iFibIndex c.ipProtocol

/-- The match of `i2o` without twice-NAT. -/
def i2o (c : ForStaticMapping) : Nat6t :=
  if c.proto = ipProtocolIcmp then
    nat6tFlowInit c.i2oAddr c.i2oPort c.srcAddress c.i2oPort c.i2oFibIndex c.ipProtocol
  else nat6tFlowInit c.i2oAddr c.i2oPort c.srcAddress c.extHostPort c.i2oFibIndex c.ipProtocol

/-- The match of `i2o` with twice-NAT, for one draw. -/
def i2oOfDraw (c : ForStaticMapping) (t : ℕ) (a : SnatAddress) (rwide : BitVec 32) : Nat6t :=
  let portnum := BitVec.ofNat 16 (c.sm.portPerThread.toNat * c.sm.snatThreadIndex t +
    (snatRandomPort rwide 0 (c.sm.portPerThread - 1)).toNat + edUserPortOffset)
  nat6tFlowInit c.i2oAddr c.i2oPort a.addr (hostToNetU16 portnum) c.i2oFibIndex c.proto

def nat44EdAllocI2oPort (c : ForStaticMapping) (h : FlowHash) (t i : ℕ) (a : SnatAddress) :
    ℕ → (ℕ → Chance) → SnatSession → Filled
  | 0, _, s => { ok := false, session := s, flowHash := h }
  | attempts + 1, chance, s =>
    let s := { s with i2o := c.i2oOfDraw t a (chance 0).rwide }
    match natEdSesI2oFlowHashAddDel h (chance 0).fails t i s .add with
    | (true, h) => { ok := true, session := s, flowHash := h }
    | (false, h) => nat44EdAllocI2oPort c h t i a attempts (fun k => chance (k + 1)) s

/-- The address that `nat44_ed_alloc_i2o_addr_and_port` takes: the first of the fib, or else, if there is one of any
    fib, the address that the loops have looked at last. -/
def twiceNatPick (c : ForStaticMapping) : Option SnatAddress :=
  let addresses := c.sm.twiceNatAddresses
  let offset := c.i2oAddr.toNat % addresses.length
  let rotated := addresses.drop offset ++ addresses.take offset
  match rotated.find? fun a => a.fibIndex = c.i2oFibIndex with
  | some a => some a
  | none => if rotated.any fun a => a.fibIndex = BitVec.allOnes 32 then rotated.getLast? else none

def nat44EdAllocI2oAddrAndPort (c : ForStaticMapping) (h : FlowHash) (t i : ℕ) (s : SnatSession) : Filled :=
  match c.twiceNatPick with
  | some a => c.nat44EdAllocI2oPort h t i a edPortAllocAttempts c.chance s
  | none => { ok := false, session := s, flowHash := h }

/-- The address for twice-NAT that the mapping asks for. -/
def exactTwiceNatAddress (c : ForStaticMapping) : Option SnatAddress :=
  c.exactAddress.bind fun x => c.sm.twiceNatAddresses.find? fun a => a.addr = x

/-- Whether the session is translated twice. -/
def twice (c : ForStaticMapping) : Bool :=
  c.twiceNat = .twiceNat || (c.twiceNat = .twiceNatSelf && c.srcAddress = c.i2oAddr)

def fill (c : ForStaticMapping) (t : ℕ) (h : FlowHash) (i : ℕ) : Filled :=
  let s := { zero with o2i := c.o2i, staticMapping := true }
  match natEdSesO2iFlowHashAddDel h c.o2iFails t i s .add with
  | (false, h) => { ok := false, session := s, flowHash := h }
  | (true, h) =>
    if c.twice then
      match c.exactTwiceNatAddress with
      | some a => c.nat44EdAllocI2oPort h t i a edPortAllocAttempts c.chance s
      | none => c.nat44EdAllocI2oAddrAndPort h t i s
    else
      let s := { s with i2o := c.i2o }
      match natEdSesI2oFlowHashAddDel h c.i2oFails t i s .add with
      | (true, h) => { ok := true, session := s, flowHash := h }
      | (false, h) => { ok := false, session := s, flowHash := (natEdSesO2iFlowHashAddDel h false t i s .del).2 }

end ForStaticMapping

def createSessionForStaticMappingEd (tb : Tables) (t : ℕ) (c : ForStaticMapping) : Tables :=
  if c.exceeded then tb else createSession tb t c.expired (c.fill t)

/-- A packet of an unknown protocol on its way out. -/
structure In2outUnknown where
  srcAddress : BitVec 32
  dstAddress : BitVec 32
  proto : BitVec 8
  rxFibIndex : BitVec 32
  txFibIndex : BitVec 32
  exceeded : Bool
  /-- whether there is a static mapping for the source -/
  mapped : Bool
  /-- the address of the static mapping, of a session with the same remote side, or of the pool; 0 if there is none -/
  newSrcAddr : BitVec 32
  /-- `nat44_ed_external_sm_lookup` of the destination -/
  externalSm : Option (BitVec 32)
  expired : Option ℕ
  i2oFails : Bool
  o2iFails : Bool
deriving DecidableEq

namespace In2outUnknown

def i2o (u : In2outUnknown) : Nat6t := nat6tFlowInit u.srcAddress 0 u.dstAddress 0 u.rxFibIndex u.proto

def o2i (u : In2outUnknown) : Nat6t :=
  nat6tFlowInit (u.externalSm.getD u.dstAddress) 0 u.newSrcAddr 0 u.txFibIndex u.proto

def fill (u : In2outUnknown) (t : ℕ) (h : FlowHash) (i : ℕ) : Filled :=
  let s : SnatSession := { i2o := u.i2o, o2i := u.o2i, staticMapping := u.mapped }
  match natEdSesI2oFlowHashAddDel h u.i2oFails t i s .add with
  | (false, h) => { ok := false, session := s, flowHash := h }
  | (true, h) =>
    let (ok, h) := natEdSesO2iFlowHashAddDel h u.o2iFails t i s .add
    { ok := ok, session := s, flowHash := h }

end In2outUnknown

def nat44EdIn2outSlowpathUnknownProto (tb : Tables) (t : ℕ) (u : In2outUnknown) : Tables :=
  if u.exceeded || u.newSrcAddr = 0 then tb else createSession tb t u.expired (u.fill t)

/-- A packet of an unknown protocol on its way in. -/
structure Out2inUnknown where
  srcAddress : BitVec 32
  dstAddress : BitVec 32
  proto : BitVec 8
  rxFibIndex : BitVec 32
  exceeded : Bool
  /-- the fib of the static mapping for the destination -/
  mapping : Option (BitVec 32)
  expired : Option ℕ
  i2oFails : Bool
  o2iFails : Bool
deriving DecidableEq

namespace Out2inUnknown

/-- The first of the two calls of `nat_6t_o2i_flow_init`. -/
def o2iFirst (u : Out2inUnknown) (mFibIndex : BitVec 32) : Nat6t :=
  nat6tFlowInit u.dstAddress 0 u.srcAddress 0 mFibIndex u.proto

def o2i (u : Out2inUnknown) : Nat6t := nat6tFlowInit u.srcAddress 0 u.dstAddress 0 u.rxFibIndex u.proto

/-- Both flows are set with `nat_6t_o2i_flow_init`, so `i2o.match` goes into the flow hash as it was allocated, all
    zero. -/
def fill (u : Out2inUnknown) (mFibIndex : BitVec 32) (t : ℕ) (h : FlowHash) (i : ℕ) : Filled :=
  let s := { zero with staticMapping := true, o2i := u.o2iFirst mFibIndex }
  match natEdSesI2oFlowHashAddDel h u.i2oFails t i s .add with
  | (false, h) => { ok := false, session := s, flowHash := h }
  | (true, h) =>
    let s := { s with o2i := u.o2i }
    let (ok, h) := natEdSesO2iFlowHashAddDel h u.o2iFails t i s .add
    { ok := ok, session := s, flowHash := h }

end Out2inUnknown

def nat44EdOut2inSlowpathUnknownProto (tb : Tables) (t : ℕ) (u : Out2inUnknown) : Tables :=
  if u.exceeded then tb
  else
    match u.mapping with
    | none => tb
    | some mFibIndex => createSession tb t u.expired (u.fill mFibIndex t)

/-! ### Runs -/

/-- What happens to the tables in one step, on one thread. -/
inductive NatStep where
  | slowPath (t : ℕ) (p : SlowPathEd)
  | forStaticMapping (t : ℕ) (c : ForStaticMapping)
  | in2outUnknown (t : ℕ) (u : In2outUnknown)
  | out2inUnknown (t : ℕ) (u : Out2inUnknown)
  | delete (t i : ℕ)

def NatStep.exec (tb : Tables) : NatStep → Tables
  | .slowPath t p => slowPathEd tb t p
  | .forStaticMapping t c => createSessionForStaticMappingEd tb t c
  | .in2outUnknown t u => nat44EdIn2outSlowpathUnknownProto tb t u
  | .out2inUnknown t u => nat44EdOut2inSlowpathUnknownProto tb t u
  | .delete t i => freeSession tb t i

end Vpp.Nat
