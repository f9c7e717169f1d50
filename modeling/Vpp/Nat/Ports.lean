import Vpp.Nat.FlowHash
import Vpp.Vppinfra.Bitmap

/-! Allocation of an outside address and port for a session (`nat44_ed_in2out.c`, `nat44_ed.c`).

    The ports from 1024 on are shared out among the workers, and the worker of a port is found from the port alone:

        1024        + n           + 2 n                     65535
        |  worker 0  |  worker 1  |  ...  |  worker k  |  (rest)  |          n = 64512 / number of workers -/

namespace Vpp.Nat
open Vpp.Vppinfra List Option Function
open BitVec (allOnes ofNat)

structure SnatAddress where
  addr : BitVec 32
  net : BitVec 32
  swIfIndex : BitVec 32
  fibIndex : BitVec 32
  addrLen : BitVec 32
deriving DecidableEq

/-- The external side of a `snat_static_mapping_t`. -/
structure SnatStaticMapping where
  externalAddr : BitVec 32
  externalPort : BitVec 16
  proto : BitVec 8
deriving DecidableEq

/-- An address-only mapping is kept with port and protocol 0 (`nat44_ed_add_static_mapping_internal`). -/
def SnatStaticMapping.AddrOnly (m : SnatStaticMapping) : Prop := m.externalPort = 0 ∧ m.proto = 0

/-- Its external side: one port of the address, or all of them. -/
def SnatStaticMapping.Covers (m : SnatStaticMapping) (addr : BitVec 32) (port : BitVec 16) (proto : BitVec 8) : Prop :=
  m.externalAddr = addr ∧ (m.externalPort = port ∧ m.proto = proto ∨ m.AddrOnly)

/-- `CLIB_MAX_MHEAPS`: there is one heap for each thread -/
def clibMaxMheaps : ℕ := 256

/-- What the creation of a session reads of `snat_main_t`. -/
structure SnatMain where
  numWorkers : ℕ
  numWorkers_lt : numWorkers < clibMaxMheaps
  firstWorkerIndex : ℕ
  workers : List ℕ
  portPerThread : BitVec 16
  /-- `per_thread_data[].snat_thread_index` -/
  snatThreadIndex : ℕ → ℕ
  addresses : List SnatAddress
  twiceNatAddresses : List SnatAddress

/-- `nat44_ed_sm_o2i_add`: the static mappings are in the flow hash from their addition to their deletion. -/
def Registered (staticMappings : List SnatStaticMapping) (h : FlowHash) : Prop :=
  ∀ m ∈ staticMappings, nat44EdSmO2iLookup h m.externalAddr m.externalPort 0 m.proto

/-- `nat44_ed_sm_match` with `by_external`: whether there is a mapping for the port or for the address -/
def nat44EdSmMatch (h : FlowHash) (addr : BitVec 32) (port : BitVec 16) (proto : BitVec 8) : Bool :=
  nat44EdSmO2iLookup h addr port 0 proto || nat44EdSmO2iLookup h addr 0 0 0

/-- A packet from outside takes a mapping for every address, port and protocol that it covers. -/
theorem Registered.match_of_covers {staticMappings : List SnatStaticMapping} {h : FlowHash}
    (hmapped : Registered staticMappings h) {m : SnatStaticMapping} (hm : m ∈ staticMappings) {addr : BitVec 32}
    {port : BitVec 16} {proto : BitVec 8} (hcovers : m.Covers addr port proto) :
    nat44EdSmMatch h addr port proto = true := by
  obtain ⟨rfl, ⟨rfl, rfl⟩ | ⟨hport, hproto⟩⟩ := hcovers
  · rw [nat44EdSmMatch, hmapped m hm, Bool.true_or]
  · have hfound := hmapped m hm
    rw [hport, hproto] at hfound
    rw [nat44EdSmMatch, hfound, Bool.or_true]

def edUserPortOffset : ℕ := 1024

def edPortAllocAttempts : ℕ := 10

/-! ### Workers -/

def clibBitmapLastSet (bitmap : List Uword) : ℕ := (clibBitmapForeach bitmap).getLast?.getD (2 ^ 64 - 1)

/-- The loop of `snat_set_workers` over the bits from the `j`th on. -/
def setThreadIndices (firstWorkerIndex : ℕ) : List ℕ → ℕ → (ℕ → ℕ) → ℕ → ℕ
  | [], _, f => f
  | i :: is, j, f => setThreadIndices firstWorkerIndex is (j + 1) (update f (firstWorkerIndex + i) j)

def snatSetWorkers (sm : SnatMain) (bitmap : List Uword) : Option SnatMain :=
  if sm.numWorkers < 2 then none
  else if clibBitmapLastSet bitmap ≥ sm.numWorkers then none
  else
    some { sm with
      workers := clibBitmapForeach bitmap
      snatThreadIndex := setThreadIndices sm.firstWorkerIndex (clibBitmapForeach bitmap) 0 sm.snatThreadIndex
      portPerThread := ofNat 16 ((65536 - edUserPortOffset) / (clibBitmapForeach bitmap).length) }

def getThreadIdxByPort (sm : SnatMain) (ePort : BitVec 16) : ℕ :=
  if sm.numWorkers > 1 then
    let slot := (((ePort.toNat : ℤ) - edUserPortOffset).tdiv sm.portPerThread.toNat % 2 ^ 32).toNat
    sm.firstWorkerIndex + sm.workers.getD (slot % sm.workers.length) 0
  else sm.numWorkers

/-! ### Allocation -/

/-- What comes from outside in one attempt: a random number, and whether the hash fails. -/
structure Chance where
  rwide : BitVec 32
  fails : Bool

def snatRandomPort (rwide : BitVec 32) (min max : BitVec 16) : BitVec 16 :=
  let r := rwide.setWidth 16
  if r ≥ min ∧ r ≤ max then r
  else ofNat 16 (min.toNat + rwide.toNat % (max.toNat - min.toNat + 1))

def portThreadOffset (portPerThread : BitVec 16) (snatThreadIndex : ℕ) : BitVec 16 :=
  ofNat 16 (portPerThread.toNat * snatThreadIndex + edUserPortOffset)

def ipProtocolIcmp : BitVec 8 := 1

/-- The session with a port tried for it. -/
def withOutsidePort (s : SnatSession) (proto : BitVec 8) (port : BitVec 16) : SnatSession :=
  { s with o2i := { s.o2i with
      sport := if proto = ipProtocolIcmp then hostToNetU16 port else s.o2i.sport
      dport := hostToNetU16 port } }

/-- What the allocation returns: the session, the flow hash, and on success the outside address and port. -/
structure Allocated where
  session : SnatSession
  flowHash : FlowHash
  outside : Option (BitVec 32 × BitVec 16)

/-- The loop of `nat_ed_alloc_addr_and_port_with_snat_address`. -/
def tryPorts (h : FlowHash) (threadIndex sessionIndex : ℕ) (proto : BitVec 8) (addr : BitVec 32)
    (portPerThread offset : BitVec 16) (backup : Nat6t) : ℕ → (ℕ → Chance) → SnatSession →
    BitVec 16 → Allocated
  | 0, _, s, _ => { session := { s with o2i := backup }, flowHash := h, outside := none }
  | attempts + 1, chance, s, port =>
    let s := withOutsidePort s proto port
    match natEdSesO2iFlowHashAddDel h (chance 0).fails threadIndex sessionIndex s .addNew with
    | (true, h) => { session := s, flowHash := h, outside := some (addr, hostToNetU16 port) }
    | (false, h) =>
      tryPorts h threadIndex sessionIndex proto addr portPerThread offset backup attempts (fun k => chance (k + 1)) s
        (offset + snatRandomPort (chance 0).rwide 0 (portPerThread - 1))

def natEdAllocAddrAndPortWithSnatAddress (h : FlowHash) (proto : BitVec 8) (threadIndex sessionIndex : ℕ)
    (a : SnatAddress) (portPerThread : BitVec 16) (snatThreadIndex : ℕ) (s : SnatSession) (outsidePort : BitVec 16)
    (chance : ℕ → Chance) : Allocated :=
  let offset := portThreadOffset portPerThread snatThreadIndex
  let port := hostToNetU16 outsidePort
  let port := if port < offset ∨ port.toNat ≥ offset.toNat + portPerThread.toNat then
      offset + snatRandomPort (chance 0).rwide 0 (portPerThread - 1)
    else port
  tryPorts h threadIndex sessionIndex proto a.addr portPerThread offset s.o2i edPortAllocAttempts
    (fun k => chance (k + 1)) { s with o2i := { s.o2i with daddr := a.addr } } port

/-- `clib_host_to_net_u32` -/
def hostToNetU32 (x : BitVec 32) : BitVec 32 :=
  x.extractLsb' 0 8 ++ x.extractLsb' 8 8 ++ x.extractLsb' 16 8 ++ x.extractLsb' 24 8

/-- `ip4_main.fib_masks[len]` -/
def fibMasks (len : BitVec 32) : BitVec 32 := hostToNetU32 (allOnes 32 <<< (32 - len.toNat))

/-- The addresses that the loops of `nat_ed_alloc_addr_and_port` note: bound to the destination, of the output
    interface, of the fib, and of any fib. -/
structure Noted where
  exact : Option SnatAddress
  ra : Option SnatAddress
  ja : Option SnatAddress
  ba : Option SnatAddress

/-- One round of the loops; once an exact address is found it is used. -/
def note (rxFibIndex txSwIfIndex dAddr : BitVec 32) (n : Noted) (a : SnatAddress) : Noted :=
  let bound := a.addrLen ≠ allOnes 32 ∧ a.net = dAddr &&& fibMasks a.addrLen
  if n.exact.isSome then n
  else if a.fibIndex = rxFibIndex then
    if txSwIfIndex ≠ allOnes 32 then
      if a.swIfIndex = txSwIfIndex then
        if bound then { n with exact := some a } else { n with ra := some a, ja := some a }
      else { n with ja := some a }
    else if bound then { n with exact := some a }
    else { n with ja := some a }
  else if a.fibIndex = allOnes 32 then { n with ba := some a }
  else n

/-- The address that `nat_ed_alloc_addr_and_port` takes; the loops start at an offset made from the source. -/
def pickAddress (addresses : List SnatAddress) (rxFibIndex txSwIfIndex sAddr dAddr : BitVec 32) : Option SnatAddress :=
  let offset := (sAddr + (sAddr >>> 8) + (sAddr >>> 16) + (sAddr >>> 24)).toNat % addresses.length
  let n := (addresses.drop offset ++ addresses.take offset).foldl (note rxFibIndex txSwIfIndex dAddr)
    ⟨none, none, none, none⟩
  n.exact.or (n.ra.or (n.ja.or n.ba))

def natEdAllocAddrAndPort (sm : SnatMain) (h : FlowHash) (rxFibIndex txSwIfIndex : BitVec 32)
    (natProto : BitVec 8) (threadIndex sessionIndex : ℕ) (sAddr dAddr : BitVec 32) (snatThreadIndex : ℕ)
    (s : SnatSession) (outsidePort : BitVec 16) (chance : ℕ → Chance) : Allocated :=
  match pickAddress sm.addresses rxFibIndex txSwIfIndex sAddr dAddr with
  | some a =>
    natEdAllocAddrAndPortWithSnatAddress h natProto threadIndex sessionIndex a sm.portPerThread snatThreadIndex s
      outsidePort chance
  | none => { session := s, flowHash := h, outside := none }

/-! ### The installed workers -/

theorem clibBitmapForeach_nodup (bitmap : List Uword) : (clibBitmapForeach bitmap).Nodup :=
  (clibBitmapForeach_pairwise bitmap).imp fun h => h.ne

theorem le_getLast_of_pairwise {l : List ℕ} (hl : l.Pairwise (· < ·)) {x last : ℕ} (hx : x ∈ l)
    (hlast : l.getLast? = some last) : x ≤ last := by
  obtain ⟨front, rfl⟩ := getLast?_eq_some_iff.mp hlast
  rcases mem_append.mp hx with hfront | hx
  · exact ((pairwise_append.mp hl).2.2 x hfront last (mem_singleton_self _)).le
  · exact (mem_singleton.mp hx).le

/-- What `snat_set_workers` leaves behind. -/
structure WorkersSet (sm : SnatMain) : Prop where
  numWorkers : 2 ≤ sm.numWorkers
  nodup : sm.workers.Nodup
  bounded : ∀ w ∈ sm.workers, w < sm.numWorkers
  threadIndex : ∀ k w, sm.workers[k]? = some w → sm.snatThreadIndex (sm.firstWorkerIndex + w) = k
  portPerThread : sm.portPerThread.toNat = 64512 / sm.workers.length

theorem setThreadIndices_of_notMem {first t : ℕ} {is : List ℕ} (ht : ∀ i ∈ is, first + i ≠ t)
    (j : ℕ) (f : ℕ → ℕ) :
    setThreadIndices first is j f t = f t := by
  induction is generalizing j f with
  | nil => rfl
  | cons i is ih =>
    rw [setThreadIndices, ih fun i' hi' => ht i' (mem_cons_of_mem _ hi')]
    exact update_of_ne (ht i mem_cons_self).symm _ _

/-- The workers are numbered in the order of their bits. -/
theorem setThreadIndices_getElem {first : ℕ} {is : List ℕ} (hnd : is.Nodup) {k i : ℕ}
    (hk : is[k]? = some i) (j : ℕ)
    (f : ℕ → ℕ) : setThreadIndices first is j f (first + i) = j + k := by
  induction is generalizing k j f with
  | nil => simp at hk
  | cons i' is ih =>
    obtain ⟨hi', hnd⟩ := nodup_cons.mp hnd
    rw [setThreadIndices]
    cases k with
    | zero =>
      obtain rfl : i' = i := by simpa using hk
      have hrest : ∀ i ∈ is, first + i ≠ first + i' := by
        rintro i hi heq
        exact hi' (Nat.add_left_cancel heq ▸ hi)
      rw [setThreadIndices_of_notMem hrest, update_self, add_zero]
    | succ k =>
      rw [ih hnd (by simpa using hk)]
      omega

theorem snatSetWorkers_workersSet {sm sm' : SnatMain} {bitmap : List Uword} (h : snatSetWorkers sm bitmap = some sm') :
    WorkersSet sm' := by
  rw [snatSetWorkers] at h
  split_ifs at h with htwo hlast
  rw [not_lt] at htwo
  cases h
  have hdiv : 64512 / (clibBitmapForeach bitmap).length ≤ 64512 := Nat.div_le_self _ _
  refine ⟨htwo, clibBitmapForeach_nodup bitmap, ?_, ?_, Nat.mod_eq_of_lt (by change 64512 / _ < _; omega)⟩
  · intro w hw
    cases hlast? : (clibBitmapForeach bitmap).getLast? with
    | none =>
      rw [getLast?_eq_none_iff] at hlast?
      rw [hlast?] at hw
      cases hw
    | some last =>
      have := le_getLast_of_pairwise (clibBitmapForeach_pairwise bitmap) hw hlast?
      rw [clibBitmapLastSet, hlast?, getD_some, not_le] at hlast
      exact this.trans_lt hlast
  · intro k w hk
    exact (setThreadIndices_getElem (clibBitmapForeach_nodup bitmap) hk 0 sm.snatThreadIndex).trans (zero_add k)

/-! ### Port ranges -/

/-- The ports of the worker on a thread. -/
def InPortRange (sm : SnatMain) (threadIndex port : ℕ) : Prop :=
  edUserPortOffset + sm.portPerThread.toNat * sm.snatThreadIndex threadIndex ≤ port ∧
    port < edUserPortOffset + sm.portPerThread.toNat * (sm.snatThreadIndex threadIndex + 1)

namespace WorkersSet
variable {sm : SnatMain} (hsm : WorkersSet sm)
include hsm

theorem length_le : sm.workers.length ≤ sm.numWorkers := by
  have hsub : sm.workers.toFinset ⊆ Finset.range sm.numWorkers := by
    intro w hw
    exact Finset.mem_range.mpr (hsm.bounded w (mem_toFinset.mp hw))
  calc sm.workers.length = sm.workers.toFinset.card := (toFinset_card_of_nodup hsm.nodup).symm
    _ ≤ (Finset.range sm.numWorkers).card := Finset.card_le_card hsub
    _ = sm.numWorkers := Finset.card_range _

theorem portPerThread_pos {w : ℕ} (hw : w ∈ sm.workers) : 0 < sm.portPerThread.toNat := by
  have hlen := length_pos_of_mem hw
  have hle := hsm.length_le
  have hlt := sm.numWorkers_lt
  rw [hsm.portPerThread]
  exact Nat.div_pos (by rw [clibMaxMheaps] at hlt; omega) hlen

/-- The ranges of all the workers together fit into the ports. -/
theorem portPerThread_mul_le : sm.portPerThread.toNat * sm.workers.length ≤ 64512 := by
  rw [hsm.portPerThread]
  exact Nat.div_mul_le_self _ _

theorem exists_position {w : ℕ} (hw : w ∈ sm.workers) :
    ∃ k, sm.workers[k]? = some w ∧ sm.snatThreadIndex (sm.firstWorkerIndex + w) = k ∧
      sm.portPerThread.toNat * (k + 1) ≤ 64512 := by
  obtain ⟨k, hk⟩ := mem_iff_getElem?.mp hw
  have hlt : k < sm.workers.length := (List.getElem?_eq_some_iff.mp hk).1
  exact ⟨k, hk, hsm.threadIndex k w hk, (Nat.mul_le_mul_left _ hlt).trans hsm.portPerThread_mul_le⟩

theorem bounds_of_inPortRange {w port : ℕ} (hw : w ∈ sm.workers)
    (hport : InPortRange sm (sm.firstWorkerIndex + w) port) : 1024 ≤ port ∧ port ≤ 65535 := by
  obtain ⟨k, -, hk, hfit⟩ := hsm.exists_position hw
  rw [InPortRange, hk, edUserPortOffset] at hport
  omega

/-- Two workers share no port. -/
theorem inPortRange_unique {w w' port : ℕ} (hw : w ∈ sm.workers) (hw' : w' ∈ sm.workers)
    (hport : InPortRange sm (sm.firstWorkerIndex + w) port) (hport' : InPortRange sm (sm.firstWorkerIndex + w') port) :
    w = w' := by
  obtain ⟨k, hat, hk, -⟩ := hsm.exists_position hw
  obtain ⟨k', hat', hk', -⟩ := hsm.exists_position hw'
  rw [InPortRange, hk] at hport
  rw [InPortRange, hk'] at hport'
  have hle : k < k' + 1 := Nat.lt_of_mul_lt_mul_left (a := sm.portPerThread.toNat) (by omega)
  have hge : k' < k + 1 := Nat.lt_of_mul_lt_mul_left (a := sm.portPerThread.toNat) (by omega)
  obtain rfl : k = k' := by omega
  exact some.inj (hat.symm.trans hat')

/-- The worker of a port is found from the port. -/
theorem getThreadIdxByPort_eq {w : ℕ} {port : BitVec 16} (hw : w ∈ sm.workers)
    (hport : InPortRange sm (sm.firstWorkerIndex + w) port.toNat) :
    getThreadIdxByPort sm port = sm.firstWorkerIndex + w := by
  obtain ⟨k, hat, hk, -⟩ := hsm.exists_position hw
  rw [InPortRange, hk] at hport
  have hdiv : (port.toNat - edUserPortOffset) / sm.portPerThread.toNat = k :=
    Nat.div_eq_of_lt_le (by rw [mul_comm]; omega) (by rw [mul_comm]; omega)
  have hcast : ((port.toNat : ℤ) - edUserPortOffset).tdiv sm.portPerThread.toNat = (k : ℤ) := by
    rw [← Nat.cast_sub (by omega), ← hdiv]
    rfl
  have hlt : k < sm.workers.length := (List.getElem?_eq_some_iff.mp hat).1
  have hsmall : (((k : ℤ) % 2 ^ 32).toNat) = k := by
    have := hsm.length_le
    have := sm.numWorkers_lt
    rw [clibMaxMheaps] at this
    omega
  rw [getThreadIdxByPort, if_pos (Nat.lt_of_succ_le hsm.numWorkers)]
  simp only [hcast, hsmall, Nat.mod_eq_of_lt hlt, getD_eq_getElem?_getD, hat, getD_some]

end WorkersSet

/-! ### Drawing a port -/

theorem snatRandomPort_lt {n : BitVec 16} (hn : 0 < n.toNat) (rwide : BitVec 32) :
    (snatRandomPort rwide 0 (n - 1)).toNat < n.toNat := by
  have hpred : (n - 1).toNat = n.toNat - 1 := by
    rw [BitVec.toNat_sub]
    simp
    omega
  rw [snatRandomPort]
  split_ifs with hr
  · have := BitVec.le_def.mp hr.2
    omega
  · have hmod := Nat.mod_lt rwide.toNat hn
    have hzero : (0 : BitVec 16).toNat = 0 := rfl
    rw [BitVec.toNat_ofNat, hpred, hzero, zero_add, Nat.sub_zero, Nat.sub_add_cancel hn]
    exact (Nat.mod_le _ _).trans_lt hmod

/-- A port that was tried and taken: its tuple is new in the flow hash, and it belongs to no static mapping. -/
structure Granted (h : FlowHash) (threadIndex sessionIndex : ℕ) (addr : BitVec 32) (port : BitVec 16)
    (r : Allocated) : Prop where
  outside : r.outside = some (addr, hostToNetU16 port)
  daddr : r.session.o2i.daddr = addr
  dport : r.session.o2i.dport = hostToNetU16 port
  absent : h r.session.o2i.edK = none
  unmapped : nat44EdSmO2iLookup h addr (hostToNetU16 port) 0 r.session.o2i.proto = false
  flowHash : r.flowHash = update h r.session.o2i.edK (some (.session threadIndex sessionIndex))

/-- An allocation that changed nothing. -/
structure Refused (h : FlowHash) (s : SnatSession) (r : Allocated) : Prop where
  outside : r.outside = none
  i2o : r.session.i2o = s.i2o
  o2i : r.session.o2i = s.o2i
  flowHash : r.flowHash = h

variable {ppt : BitVec 16}

/-- The loop keeps to any set of ports that its draws are from. -/
theorem tryPorts_spec {h : FlowHash} {t i : ℕ} {proto : BitVec 8} {addr : BitVec 32}
    {offset : BitVec 16} {s₀ : SnatSession} {P : BitVec 16 → Prop}
    (hdraw : ∀ rwide, P (offset + snatRandomPort rwide 0 (ppt - 1))) (attempts : ℕ)
    (chance : ℕ → Chance) {s : SnatSession} {port : BitVec 16} (hs : s.staticMapping = false)
    (hi2o : s.i2o = s₀.i2o) (hdaddr : s.o2i.daddr = addr) (hport : P port) :
    (∃ p, P p ∧ Granted h t i addr p (tryPorts h t i proto addr ppt offset s₀.o2i attempts chance s port)) ∨
      Refused h s₀ (tryPorts h t i proto addr ppt offset s₀.o2i attempts chance s port) := by
  induction attempts generalizing chance s port with
  | zero => exact .inr ⟨rfl, hi2o, rfl, rfl⟩
  | succ attempts ih =>
    -- a refused port leaves the hash as it was, so the next attempt starts from the same one
    rcases hadd : natEdSesO2iFlowHashAddDel h (chance 0).fails t i
      (withOutsidePort s proto port) .addNew with ⟨ok, h'⟩
    simp only [tryPorts, hadd]
    have hs' : (withOutsidePort s proto port).staticMapping = false := hs
    rcases natEdSesO2iFlowHashAddDel_addNew hs' hadd with ⟨rfl, hunmapped, habsent, rfl⟩ | ⟨rfl, rfl⟩
    · refine .inl ⟨port, hport, ⟨rfl, hdaddr, rfl, habsent, ?_, rfl⟩⟩
      rw [← hdaddr]
      exact hunmapped
    · exact ih _ hs' hi2o hdaddr (hdraw _)

theorem portThreadOffset_toNat {k : ℕ} (hfit : ppt.toNat * (k + 1) ≤ 64512) (hpos : 0 < ppt.toNat) :
    (portThreadOffset ppt k).toNat = ppt.toNat * k + edUserPortOffset := by
  rw [portThreadOffset, BitVec.toNat_ofNat, Nat.mod_eq_of_lt]
  rw [Nat.mul_succ] at hfit
  rw [edUserPortOffset]
  omega

/-- With one address: the port is one that was drawn, or the suggested one where that fits. -/
theorem natEdAllocAddrAndPortWithSnatAddress_spec (h : FlowHash) (proto : BitVec 8) (t i : ℕ)
    (a : SnatAddress) {k : ℕ} {s : SnatSession} (outsidePort : BitVec 16) (chance : ℕ → Chance)
    {P : BitVec 16 → Prop} (hs : s.staticMapping = false)
    (hdraw : ∀ rwide, P (portThreadOffset ppt k + snatRandomPort rwide 0 (ppt - 1)))
    (hsuggested : ∀ p, portThreadOffset ppt k ≤ p → p.toNat < (portThreadOffset ppt k).toNat +
      ppt.toNat → P p) :
    (∃ p, P p ∧ Granted h t i a.addr p
      (natEdAllocAddrAndPortWithSnatAddress h proto t i a ppt k s outsidePort chance)) ∨
      Refused h s (natEdAllocAddrAndPortWithSnatAddress h proto t i a ppt k s outsidePort chance) := by
  refine tryPorts_spec hdraw _ _ hs rfl rfl ?_
  split_ifs with hfits
  · exact hdraw _
  · rw [not_or, BitVec.not_lt, ge_iff_le, not_le] at hfits
    exact hsuggested _ hfits.1 hfits.2

/-- The ports of the `k`th worker. -/
theorem workerPort_bounds {k : ℕ} (hpos : 0 < ppt.toNat) (hfit : ppt.toNat * (k + 1) ≤ 64512)
    {p : BitVec 16} (hle : (portThreadOffset ppt k).toNat ≤ p.toNat)
    (hlt : p.toNat < (portThreadOffset ppt k).toNat + ppt.toNat) :
    edUserPortOffset + ppt.toNat * k ≤ p.toNat ∧ p.toNat < edUserPortOffset + ppt.toNat * (k + 1) := by
  rw [portThreadOffset_toNat hfit hpos] at hle hlt
  rw [Nat.mul_succ]
  omega

/-- A drawn port is one of the worker's. -/
theorem drawnPort_toNat {k : ℕ} (hpos : 0 < ppt.toNat) (hfit : ppt.toNat * (k + 1) ≤ 64512)
    (rwide : BitVec 32) :
    (portThreadOffset ppt k + snatRandomPort rwide 0 (ppt - 1)).toNat =
      (portThreadOffset ppt k).toNat + (snatRandomPort rwide 0 (ppt - 1)).toNat := by
  have hlt := snatRandomPort_lt hpos rwide
  rw [Nat.mul_succ] at hfit
  rw [BitVec.toNat_add, Nat.mod_eq_of_lt]
  rw [portThreadOffset_toNat (by rw [Nat.mul_succ]; exact hfit) hpos, edUserPortOffset]
  omega

/-! ### The allocation -/

/-- Whatever the configuration, an allocation is granted on a new tuple or changes nothing. -/
theorem natEdAllocAddrAndPort_cases (sm : SnatMain) (h : FlowHash) (rxFibIndex txSwIfIndex : BitVec 32)
    (natProto : BitVec 8) (t i : ℕ) (sAddr dAddr : BitVec 32) (k : ℕ) {s : SnatSession}
    (hs : s.staticMapping = false) (outsidePort : BitVec 16) (chance : ℕ → Chance) (r : Allocated)
    (hr : natEdAllocAddrAndPort sm h rxFibIndex txSwIfIndex natProto t i sAddr dAddr k s outsidePort chance = r) :
    (∃ addr p, Granted h t i addr p r) ∨ Refused h s r := by
  rw [natEdAllocAddrAndPort] at hr
  split at hr
  · subst hr
    rcases natEdAllocAddrAndPortWithSnatAddress_spec (P := fun _ => True) h natProto t i _ outsidePort chance hs
      (fun _ => trivial) (fun _ _ _ => trivial) with ⟨p, -, hgranted⟩ | hrefused
    · exact .inl ⟨_, p, hgranted⟩
    · exact .inr hrefused
  · subst hr
    exact .inr ⟨rfl, rfl, rfl, rfl⟩

/-- `nat_ed_alloc_addr_and_port` on the thread of an installed worker. If it succeeds, the tuple was absent from the
    flow hash and now leads to the session, the outside address, port and protocol are those of no static mapping
    exactly where the address has no mapping of its own, which the allocation does not ask for, and the port is one
    of the worker's own and leads back to the worker. If it fails, nothing has changed. The ranges of the workers are
    disjoint and start at 1024. -/
theorem natEdAllocAddrAndPort_worker_local {sm sm' : SnatMain} {bitmap : List Uword}
    (hset : snatSetWorkers sm bitmap = some sm') {w : ℕ} (hw : w ∈ sm'.workers)
    {staticMappings : List SnatStaticMapping} {h : FlowHash} (hmapped : Registered staticMappings h)
    (rxFibIndex txSwIfIndex : BitVec 32) (natProto : BitVec 8) (sessionIndex : ℕ) (sAddr dAddr : BitVec 32)
    {s : SnatSession} (hdynamic : s.staticMapping = false) (outsidePort : BitVec 16) (chance : ℕ → Chance)
    (r : Allocated)
    (hr : natEdAllocAddrAndPort sm' h rxFibIndex txSwIfIndex natProto (sm'.firstWorkerIndex + w) sessionIndex sAddr
      dAddr (sm'.snatThreadIndex (sm'.firstWorkerIndex + w)) s outsidePort chance = r) :
    (∀ addr port, r.outside = some (addr, port) →
      r.session.o2i.daddr = addr ∧ r.session.o2i.dport = port ∧
      h r.session.o2i.edK = none ∧
      r.flowHash = update h r.session.o2i.edK
        (some (.session (sm'.firstWorkerIndex + w) sessionIndex)) ∧
      ((∀ m ∈ staticMappings, ¬ m.Covers addr port r.session.o2i.proto) ↔
        ∀ m ∈ staticMappings, m.externalAddr = addr → ¬ m.AddrOnly) ∧
      InPortRange sm' (sm'.firstWorkerIndex + w) (hostToNetU16 port).toNat ∧
      getThreadIdxByPort sm' (hostToNetU16 port) = sm'.firstWorkerIndex + w) ∧
    (r.outside = none → r.flowHash = h ∧ r.session.o2i = s.o2i) ∧
    (∀ p, InPortRange sm' (sm'.firstWorkerIndex + w) p → 1024 ≤ p ∧ p ≤ 65535) ∧
    (∀ w' ∈ sm'.workers, w ≠ w' → ∀ p, InPortRange sm' (sm'.firstWorkerIndex + w) p →
      ¬ InPortRange sm' (sm'.firstWorkerIndex + w') p) := by
  have hsm := snatSetWorkers_workersSet hset
  have hgrant : (∃ addr p, InPortRange sm' (sm'.firstWorkerIndex + w) p.toNat ∧
      Granted h (sm'.firstWorkerIndex + w) sessionIndex addr p r) ∨ Refused h s r := by
    obtain ⟨k, -, hk, hfit⟩ := hsm.exists_position hw
    rw [natEdAllocAddrAndPort] at hr
    cases hpick : pickAddress sm'.addresses rxFibIndex txSwIfIndex sAddr dAddr with
    | none =>
      rw [hpick] at hr
      exact .inr (hr ▸ ⟨rfl, rfl, rfl, rfl⟩)
    | some a =>
      rw [hpick, hk] at hr
      subst hr
      have hpos := hsm.portPerThread_pos hw
      have hdraw (rwide : BitVec 32) : InPortRange sm' (sm'.firstWorkerIndex + w)
          (portThreadOffset sm'.portPerThread k + snatRandomPort rwide 0 (sm'.portPerThread - 1)).toNat := by
        have hlt := snatRandomPort_lt hpos rwide
        have hdrawn := drawnPort_toNat hpos hfit rwide
        rw [InPortRange, hk]
        exact workerPort_bounds hpos hfit (by omega) (by omega)
      rcases natEdAllocAddrAndPortWithSnatAddress_spec h natProto (sm'.firstWorkerIndex + w) sessionIndex a
        outsidePort chance (P := fun p => InPortRange sm' (sm'.firstWorkerIndex + w) p.toNat) hdynamic hdraw
        (fun p hle hlt => by
          rw [InPortRange, hk]
          exact workerPort_bounds hpos hfit (BitVec.le_def.mp hle) hlt) with ⟨p, hp, hgranted⟩ | hrefused
      · exact .inl ⟨a.addr, p, hp, hgranted⟩
      · exact .inr hrefused
  refine ⟨?_, ?_, fun p hp => hsm.bounds_of_inPortRange hw hp, ?_⟩
  · intro addr port hout
    rcases hgrant with ⟨addr', p, hp, hgranted⟩ | hrefused
    · obtain ⟨rfl, rfl⟩ : addr' = addr ∧ hostToNetU16 p = port := by
        simpa using hgranted.outside.symm.trans hout
      rw [hostToNetU16_hostToNetU16]
      refine ⟨hgranted.daddr, hgranted.dport, hgranted.absent, hgranted.flowHash, ?_, hp,
        hsm.getThreadIdxByPort_eq hw hp⟩
      constructor
      · exact fun h m hm haddr honly => h m hm ⟨haddr, .inr honly⟩
      · rintro h m hm ⟨haddr, ⟨hport, hproto⟩ | honly⟩
        · have hfound := hmapped m hm
          rw [haddr, hport, hproto, hgranted.unmapped] at hfound
          exact Bool.false_ne_true hfound
        · exact h m hm haddr honly
    · rw [hrefused.outside] at hout
      cases hout
  · intro hout
    rcases hgrant with ⟨addr', p, hp, hgranted⟩ | hrefused
    · rw [hgranted.outside] at hout
      cases hout
    · exact ⟨hrefused.flowHash, hrefused.o2i⟩
  · intro w' hw' hne p hp hp'
    exact hne (hsm.inPortRange_unique hw hw' hp hp')

/-- Two workers and one pool address, with a static mapping on port 33280 of it. -/
def twoWorkersMain : SnatMain where
  numWorkers := 2
  numWorkers_lt := by decide
  firstWorkerIndex := 1
  workers := []
  portPerThread := 0
  snatThreadIndex := fun _ => 0
  addresses := [{ addr := 7, net := 0, swIfIndex := 3, fibIndex := allOnes 32, addrLen := allOnes 32 }]
  twiceNatAddresses := []

def oneMapping : SnatStaticMapping := { externalAddr := 7, externalPort := hostToNetU16 33280, proto := 17 }

/-- And one on the address. -/
def addrMapping : SnatStaticMapping := { externalAddr := 7, externalPort := 0, proto := 0 }

/-- The flow hash with one static mapping. -/
def mappingHash (m : SnatStaticMapping) : FlowHash :=
  update (fun _ => none) (nat44EdSmInitO2iK m.externalAddr m.externalPort 0 m.proto) (some (.staticMapping 0))

theorem registered_mappingHash (m : SnatStaticMapping) : Registered [m] (mappingHash m) := by
  intro m' hm
  rw [mem_singleton.mp hm]
  simp [nat44EdSmO2iLookup, mappingHash]

def twoWorkersSet : SnatMain := (snatSetWorkers twoWorkersMain [3]).getD twoWorkersMain

/-- On the second worker the suggested port is the first worker's, and the port drawn first is 33280. -/
def secondWorkerAlloc (m : SnatStaticMapping) : Allocated :=
  natEdAllocAddrAndPort twoWorkersSet (mappingHash m) 0 (allOnes 32) 17 2 4 10 20 1
    { SnatSession.zero with o2i := { zeroTuple with proto := 17 } } (hostToNetU16 5000)
    fun k => ⟨ofNat 32 k, false⟩

theorem natEdAllocAddrAndPort_second_worker :
    snatSetWorkers twoWorkersMain [3] = some twoWorkersSet ∧
    (secondWorkerAlloc oneMapping).outside = some (7, hostToNetU16 33281) ∧
    mappingHash oneMapping (secondWorkerAlloc oneMapping).session.o2i.edK = none ∧
    (∀ m ∈ [oneMapping], ¬ m.Covers 7 (hostToNetU16 33281) (secondWorkerAlloc oneMapping).session.o2i.proto) ∧
    getThreadIdxByPort twoWorkersSet (hostToNetU16 (hostToNetU16 33281)) = 2 := by
  have hout : (secondWorkerAlloc oneMapping).outside = some (7, hostToNetU16 33281) := by decide +kernel
  have hset : snatSetWorkers twoWorkersMain [3] = some twoWorkersSet := rfl
  have hspec := (natEdAllocAddrAndPort_worker_local hset (w := 1) (by decide) (registered_mappingHash oneMapping) 0
    (allOnes 32) 17 4 10 20 rfl (hostToNetU16 5000) (fun k => ⟨ofNat 32 k, false⟩)
    (secondWorkerAlloc oneMapping) rfl).1
    7 (hostToNetU16 33281) hout
  obtain ⟨-, -, habsent, -, hcovers, -, hthread⟩ := hspec
  refine ⟨hset, hout, habsent, hcovers.mpr fun m hm _ honly => ?_, hthread⟩
  rw [mem_singleton.mp hm] at honly
  exact absurd honly.2 (by decide)

/-- The allocation takes a port of an address that is mapped as a whole: packets to it are for the mapping. -/
theorem natEdAllocAddrAndPort_takes_mapped_address :
    snatSetWorkers twoWorkersMain [3] = some twoWorkersSet ∧
    Registered [addrMapping] (mappingHash addrMapping) ∧
    (secondWorkerAlloc addrMapping).outside = some (7, hostToNetU16 33280) ∧
    addrMapping.Covers 7 (hostToNetU16 33280) 17 ∧
    nat44EdSmMatch (mappingHash addrMapping) 7 (hostToNetU16 33280) 17 = true := by
  have hcovers : addrMapping.Covers 7 (hostToNetU16 33280) 17 := ⟨rfl, .inr ⟨rfl, rfl⟩⟩
  have hmapped := registered_mappingHash addrMapping
  exact ⟨rfl, hmapped, by decide +kernel, hcovers, hmapped.match_of_covers mem_cons_self hcovers⟩

end Vpp.Nat
