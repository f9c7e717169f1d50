import Vpp.Ip.Reass.Ip6
import Vpp.Ip.Reass.Held
import Vpp.Vlib.Chain

/-! What IPv6 reassembly completes leaves no gap.

    The ranges are whole fragments, in order and apart from each other, and the octets they have are
    counted. As for IPv4, the count says that none is missing only where no fragment goes beyond the end
    that the latest fragment without `more` has announced. -/

namespace Vpp.Ip
open Vpp.Schemes Vpp.Vlib List
open Option (some)
open Range (iv)

variable {vm : Vm} {reass : Ip6FullReass} {got : List Ip6Arrival} {a : Ip6Arrival} {c r new : Ip6Range}
  {rest ranges : List Ip6Range} {maxReassLen thread now : ℕ} {u : Ip6Updated}

/-! ### The fragments -/

namespace Ip6Arrival

def first (vm : Vm) (a : Ip6Arrival) : ℕ := ip6FragHdrOffsetBytes (vm.buffer a.bi) a.fragHdrOffset
def last (vm : Vm) (a : Ip6Arrival) : ℕ := ip6FragmentLast vm a.bi a.fragHdrOffset
def more (vm : Vm) (a : Ip6Arrival) : Bool := ip6FragHdrMore (vm.buffer a.bi) a.fragHdrOffset

/-- The octets of the fragment. -/
def iv (vm : Vm) (a : Ip6Arrival) : Iv := ⟨a.first vm, a.first vm + ip6FragmentLength vm a.bi a.fragHdrOffset⟩

/-- The range that the fragment becomes. -/
def range (vm : Vm) (a : Ip6Arrival) : Ip6Range :=
  { Range.ofFragment a.bi (a.first vm) (a.last vm) with ip6FragHdrOffset := a.fragHdrOffset }

end Ip6Arrival

/-- A fragment that passes the checks on its size, and whose fragment header is in the packet as a whole. -/
@[mk_iff]
structure Ip6Accepted (vm : Vm) (a : Ip6Arrival) : Prop where
  found : (ip6FragHdr (vm.buffer a.bi)).map Prod.snd = some a.fragHdrOffset
  multiple8 : ip6FullReassVerifyFragmentMultiple8 vm a.bi a.fragHdrOffset = true
  lt64k : ip6FullReassVerifyPacketSizeLt64k vm a.bi a.fragHdrOffset = true
  header : a.fragHdrOffset + 8 ≤ vm.vlibBufferLengthInChain a.bi
  short : vm.vlibBufferLengthInChain a.bi < 2 ^ 31

instance (vm : Vm) (a : Ip6Arrival) : Decidable (Ip6Accepted vm a) := decidable_of_iff' _ (ip6Accepted_iff vm a)

/-- The headers found lie in front of `maxOffset`, behind the IPv6 header. -/
theorem extHeadersFrom_bounds {b : VlibBuffer} {maxOffset n offset proto : ℕ} {last : Bool} (h40 : 40 ≤ offset)
    (hlt : offset < maxOffset) : ∀ h ∈ extHeadersFrom b maxOffset n offset proto last, 40 ≤ h.offset ∧
    h.offset < maxOffset := by
  induction n generalizing offset proto last with
  | zero => simp [extHeadersFrom]
  | succ n ih =>
    intro h hh
    rcases mem_cons.mp hh with rfl | hh
    · exact ⟨h40, hlt⟩
    · split at hh
      · cases hh
      · split at hh
        · cases hh
        · rename_i offset' proto' last' hnext
          have hstep : 40 ≤ offset' ∧ offset' < maxOffset := by
            simp only [ip6ExtNextHeaderS] at hnext
            split at hnext <;> (try split at hnext) <;> (try split at hnext) <;>
              (try split at hnext) <;> try cases hnext
            all_goals exact ⟨by omega, by omega⟩
          exact ih hstep.1 hstep.2 h hh

/-- The fragment header starts in the first buffer, behind the IPv6 header. -/
theorem ip6FragHdr_bounds {b : VlibBuffer} {offset : ℕ} (h : (ip6FragHdr b).map Prod.snd = some offset) :
    40 ≤ offset ∧ offset < b.currentLength := by
  simp only [ip6FragHdr] at h
  cases hwalk : ip6ExtHeaderWalk b with
  | none => simp [hwalk] at h
  | some eh =>
    simp only [hwalk] at h
    cases hdrop : eh.reverse.dropWhile fun h => h.protocol != ipProtocolIpv6Fragmentation with
    | nil => simp [hdrop] at h
    | cons x before =>
      obtain rfl : x.offset = offset := by simpa [hdrop] using h
      have hmem : x ∈ eh := by
        have : x ∈ eh.reverse := (dropWhile_sublist _).subset (by rw [hdrop]; exact mem_cons_self)
        simpa using this
      have hproto : x.protocol = ipProtocolIpv6Fragmentation := by
        have := head?_dropWhile_not (fun h : ExtHdr => h.protocol != ipProtocolIpv6Fragmentation) eh.reverse
        simpa [hdrop] using this
      simp only [ip6ExtHeaderWalk] at hwalk
      split at hwalk
      · cases hwalk
      · rename_i hle
        obtain rfl := some.inj hwalk
        rcases eq_zero_or_pos (ip6ExtHeaderLenS b (b.current 6).toNat 40) with hzero | hpos
        · -- a header without length is no fragment header, and nothing is read behind it
          have hnone : ip6ExtNextHeaderS b (b.current 6).toNat 40
              (min (min b.currentLength 256) (40 + ip6PayloadLength b)) = none := by
            simp only [ip6ExtHeaderLenS, ip6ExtHeaderLen, ip6ExtAuthhdrLen] at hzero
            simp only [ip6ExtNextHeaderS]
            split at hzero
            · omega
            · rename_i hext
              rw [if_neg hext]
              split at hzero
              · omega
              · rename_i hah
                split at hzero
                · cases hzero
                · rename_i hfrag
                  rw [if_neg hfrag, if_neg hah]
          rw [extHeadersFrom, hnone] at hmem
          obtain rfl : x = ⟨(b.current 6).toNat, 40⟩ := by simpa using hmem
          simp only at hproto
          rw [hproto] at hzero
          cases hzero
        · have := extHeadersFrom_bounds (by omega) (by omega) x hmem
          omega

namespace Ip6Accepted

section
variable (h : Ip6Accepted vm a)
include h

/-- The bounds of the fragment. -/
theorem spec : a.first vm + ip6FragmentLength vm a.bi a.fragHdrOffset ≤ 65535 ∧
    (ip6FragmentLength vm a.bi a.fragHdrOffset ≠ 0 →
      a.first vm ≤ a.last vm ∧ a.last vm + 1 = a.first vm + ip6FragmentLength vm a.bi a.fragHdrOffset) := by
  have h1 := h.lt64k
  have h2 := h.header
  have h3 := h.short
  have hlen : ip6FragmentLength vm a.bi a.fragHdrOffset =
      (vm.vlibBufferLengthInChain a.bi + 2 ^ 32 - (a.fragHdrOffset + 8)) % 2 ^ 32 := rfl
  have hlast : a.last vm = (a.first vm + ip6FragmentLength vm a.bi a.fragHdrOffset + 2 ^ 32 - 1) % 2 ^ 32 := rfl
  have hoff : a.first vm < 2 ^ 16 := by
    have := ofBe_lt [(vm.buffer a.bi).current (a.fragHdrOffset + 2), (vm.buffer a.bi).current (a.fragHdrOffset + 3)]
    simp only [Ip6Arrival.first, ip6FragHdrOffsetBytes, ip6FragOffsetAndMore]
    simp only [length_cons, length_nil] at this
    omega
  simp only [ip6FullReassVerifyPacketSizeLt64k, decide_eq_true_eq] at h1
  rw [show ip6FragHdrOffsetBytes (vm.buffer a.bi) a.fragHdrOffset = a.first vm from rfl] at h1
  omega

section
variable (hne : ip6FragmentLength vm a.bi a.fragHdrOffset ≠ 0)
include hne

theorem range_eq :
    a.range vm = ⟨⟨a.bi, a.first vm, a.last vm, a.first vm, a.last vm⟩, a.fragHdrOffset⟩ := by
  obtain ⟨h1, h2⟩ := h.spec
  obtain ⟨h3, h4⟩ := h2 hne
  rw [Ip6Arrival.range, Range.ofFragment_eq a.bi h3 (by omega)]

theorem good : (a.range vm).Good := by
  obtain ⟨h1, h2⟩ := h.spec
  obtain ⟨h3, h4⟩ := h2 hne
  rw [h.range_eq hne]
  exact ⟨le_refl _, h3, rfl, by simp only; omega⟩

theorem range_iv :
    (a.range vm).iv = a.iv vm := by
  obtain ⟨-, h2⟩ := h.spec
  obtain ⟨-, h4⟩ := h2 hne
  rw [h.range_eq hne]
  simp only [iv, Ip6Arrival.iv, h4]

end

end

end Ip6Accepted

/-! ### A fragment among the ranges -/

/-- The octets of the ranges. -/
def ivs (ranges : List Ip6Range) : List Iv := ranges.map fun r => r.iv

theorem ordered_ivs_cons : Ordered (ivs (c :: rest)) ↔
    c.rangeFirst ≤ c.rangeLast ∧ (∀ r ∈ rest, c.rangeLast < r.rangeFirst) ∧ Ordered (ivs rest) := by
  rw [ivs, map_cons, ordered_cons, forall_mem_map]
  simp only [iv, Nat.lt_succ_iff, Nat.succ_le_iff, ivs]

/-- What the loop finds. -/
def Found (new : Ip6Range) (ranges : List Ip6Range) : Ip6Probe → Prop
  | .consumed ranges' => ranges'.Perm (new :: ranges) ∧ Ordered (ivs ranges') ∧
      ∀ r ∈ ranges, ¬ r.iv.Meets new.iv
  | .duplicate => ∃ r ∈ ranges, r.iv = new.iv
  | .overlap => ∃ r ∈ ranges, r.iv.Meets new.iv ∧ r.iv ≠ new.iv

section

variable (hnew : new.rangeFirst ≤ new.rangeLast)
include hnew

theorem ip6Probe_found (hord : Ordered (ivs ranges)) (hne : ranges ≠ []) :
    Found new ranges (ip6Probe new.rangeFirst new.rangeLast new ranges) := by
  induction ranges with
  | nil => exact absurd rfl hne
  | cons c rest ih =>
    obtain ⟨hc, hlt, hrest⟩ := ordered_ivs_cons.mp hord
    rw [ip6Probe]
    split
    · -- the fragment starts behind the candidate
      rename_i hafter
      have hcnew : ¬ c.iv.Meets new.iv := by simp only [Iv.Meets, iv]; omega
      split
      · rename_i hend
        rw [hend.2]
        refine ⟨List.Perm.swap _ _ _, ?_, by simpa using hcnew⟩
        exact ordered_ivs_cons.mpr
          ⟨hc, by simpa using hafter, ordered_ivs_cons.mpr ⟨hnew, by simp, ⟨by simp [ivs], by simp [ivs]⟩⟩⟩
      · rename_i hmore
        have hrne : rest ≠ [] := fun hnil => hmore ⟨by omega, hnil⟩
        have ih := ih hrest hrne
        cases hp : ip6Probe new.rangeFirst new.rangeLast new rest with
        | consumed ranges' =>
          rw [hp] at ih
          obtain ⟨hperm, hord', hmeets⟩ := ih
          refine ⟨(hperm.cons c).trans (List.Perm.swap _ _ _),
            ordered_ivs_cons.mpr ⟨hc, fun r hr => ?_, hord'⟩, ?_⟩
          · rcases mem_cons.mp (hperm.subset hr) with rfl | hr
            · exact hafter
            · exact hlt r hr
          · exact forall_mem_cons.mpr ⟨hcnew, hmeets⟩
        | duplicate =>
          rw [hp] at ih
          obtain ⟨r, hr, heq⟩ := ih
          exact ⟨r, mem_cons_of_mem c hr, heq⟩
        | overlap =>
          rw [hp] at ih
          obtain ⟨r, hr, hm⟩ := ih
          exact ⟨r, mem_cons_of_mem c hr, hm⟩
    · rename_i hnafter
      split
      · -- it ends before the candidate
        rename_i hbefore
        refine ⟨List.Perm.refl _, ordered_ivs_cons.mpr ⟨hnew, ?_, hord⟩, ?_⟩
        · intro r hr
          rcases mem_cons.mp hr with rfl | hr
          · exact hbefore
          · have := hlt r hr
            omega
        · intro r hr
          simp only [Iv.Meets, iv]
          rcases mem_cons.mp hr with rfl | hr
          · omega
          · have := hlt r hr
            omega
      · rename_i hnbefore
        split
        · rename_i hsame
          refine ⟨c, mem_cons_self, ?_⟩
          simp only [iv, hsame.1, hsame.2]
        · rename_i hdiff
          refine ⟨c, mem_cons_self, ?_, fun heq => hdiff ?_⟩
          · simp only [Iv.Meets, iv]
            omega
          · simp only [iv, Iv.mk.injEq] at heq
            omega

end

section
variable {p : Ip6Probe} (h : Found new ranges p) (hord : Ordered (ivs ranges))
include h hord

/-- A fragment that meets a range and is not the same is an overlap. -/
theorem Found.overlap (hover : ∃ r ∈ ranges, r.iv.Meets new.iv ∧ r.iv ≠ new.iv) : p = .overlap := by
  obtain ⟨r, hr, hm, hne⟩ := hover
  cases p with
  | consumed ranges' => exact absurd hm (h.2.2 r hr)
  | duplicate =>
    obtain ⟨r', hr', heq⟩ := h
    rw [← heq] at hm hne
    exact absurd (hord.eq_of_meets (mem_map_of_mem hr) (mem_map_of_mem hr') hm) hne
  | overlap => rfl

/-- A fragment that is there already is ignored. -/
theorem Found.duplicate (hnew : new.rangeFirst ≤ new.rangeLast) (hsame : ∃ r ∈ ranges, r.iv = new.iv) :
    p = .duplicate := by
  obtain ⟨r, hr, heq⟩ := hsame
  cases p with
  | consumed ranges' =>
    refine absurd ?_ (h.2.2 r hr)
    rw [heq]
    simp only [Iv.Meets, iv]
    omega
  | duplicate => rfl
  | overlap =>
    obtain ⟨r', hr', hm, hne⟩ := h
    rw [← heq] at hm hne
    exact absurd (hord.eq_of_meets (mem_map_of_mem hr') (mem_map_of_mem hr) hm) hne

end

/-! ### The context -/

/-- The end of the datagram, as the latest fragment without `more` has it. -/
def ip6LastOctet (vm : Vm) (got : List Ip6Arrival) : ℕ :=
  got.foldl (fun o a => if a.more vm then o else a.last vm) noOctet

/-- The fragments `got` have made the context `reass`. -/
structure Ip6Reassembling (vm : Vm) (got : List Ip6Arrival) (reass : Ip6FullReass) : Prop where
  good : ∀ r ∈ reass.ranges, r.Good
  ordered : Ordered (ivs reass.ranges)
  origin : ∀ r ∈ reass.ranges, ∃ a ∈ got, r.iv = a.iv vm
  kept : ∀ a ∈ got, ∃ r ∈ reass.ranges, r.iv = a.iv vm
  dataLen : reass.dataLen = measure (ivs reass.ranges)
  last : reass.lastPacketOctet = ip6LastOctet vm got

theorem Ip6Reassembling.init (vm : Vm) (now thread : ℕ) : Ip6Reassembling vm [] (ip6FullReassInit now thread) :=
  ⟨fun _ hr => (by cases hr), ⟨fun _ hx => (by cases hx), List.Pairwise.nil⟩, fun _ hr => (by cases hr),
    fun _ hx => (by cases hx), rfl, rfl⟩

theorem ip6LastOctet_append (vm : Vm) (got : List Ip6Arrival) (a : Ip6Arrival) :
    ip6LastOctet vm (got ++ [a]) = if a.more vm then ip6LastOctet vm got else a.last vm := by
  simp [ip6LastOctet]

theorem measure_ivs_lt (hgood : ∀ r ∈ ranges, r.Good) (hord : Ordered (ivs ranges)) : measure
    (ivs ranges) < 2 ^ 16 := by
  have := hord.measure_le (Nat.zero_le (2 ^ 16 - 1)) (fun _ _ => Nat.zero_le _) (by
    rw [ivs, forall_mem_map]
    intro r hr
    have := (hgood r hr).lt
    simp only [iv]
    omega)
  omega

/-- The fragment has been put among the ranges. -/
theorem Ip6Reassembling.consumed {reass' : Ip6FullReass} (h : Ip6Reassembling vm got reass) (hgood : (a.range vm).Good)
    (hiv : (a.range vm).iv = a.iv vm) (hperm : reass'.ranges.Perm (a.range vm :: reass.ranges))
    (hord : Ordered (ivs reass'.ranges)) (hdata : reass'.dataLen = (reass.dataLen + (a.range vm).dataLen) % 2 ^ 32)
    (hlast : reass'.lastPacketOctet = ip6LastOctet vm (got ++ [a])) : Ip6Reassembling vm (got ++ [a]) reass' := by
  refine ⟨fun r hr => ?_, hord, fun r hr => ?_, fun x hx => ?_, ?_, hlast⟩
  · rcases mem_cons.mp (hperm.subset hr) with rfl | hr
    · exact hgood
    · exact h.good r hr
  · rcases mem_cons.mp (hperm.subset hr) with rfl | hr
    · exact ⟨a, by simp, hiv⟩
    · obtain ⟨x, hx, heq⟩ := h.origin r hr
      exact ⟨x, mem_append_left _ hx, heq⟩
  · rcases mem_append.mp hx with hx | hx
    · obtain ⟨r, hr, heq⟩ := h.kept x hx
      exact ⟨r, hperm.symm.subset (mem_cons_of_mem _ hr), heq⟩
    · obtain rfl := mem_singleton.mp hx
      exact ⟨_, hperm.symm.subset mem_cons_self, hiv⟩
  · have hm : measure (ivs reass'.ranges) = measure (ivs (a.range vm :: reass.ranges)) :=
      ((hperm.map fun r : Ip6Range => r.iv).map fun x : Iv => x.hi - x.lo).sum_eq
    have hcons : measure (ivs (a.range vm :: reass.ranges)) = (a.range vm).dataLen + measure (ivs reass.ranges) := by
      rw [ivs, map_cons, measure_cons, hgood.dataLen]
      rfl
    have hlt := measure_ivs_lt h.good h.ordered
    have hdlt : (a.range vm).dataLen < 2 ^ 16 := Nat.mod_lt _ (by decide)
    have hd := h.dataLen
    rw [hdata, hm, hcons]
    omega

/-- As many octets are held as the end announced last says. -/
def Ip6FullReass.Complete (reass : Ip6FullReass) : Prop :=
  reass.lastPacketOctet ≠ noOctet ∧ reass.dataLen = (reass.lastPacketOctet + 1) % 2 ^ 32

/-- From `check_if_done_maybe` on, for a context in the hash table. -/
theorem ip6CheckIfDone_cases {isCustom consumed : Bool} {bi : ℕ}
    (h : ip6CheckIfDone maxReassLen isCustom false vm bi reass consumed = some u) :
    u.reass = reass ∧ (u.rc = .ok → u.completed = false → u.vm = vm ∧ ¬ reass.Complete) ∧
      (u.completed = true → reass.Complete) := by
  rw [ip6CheckIfDone, Bool.and_false, if_neg Bool.false_ne_true] at h
  split at h
  · rename_i hdone
    split at h
    · cases h
    · obtain rfl := some.inj h
      exact ⟨rfl, fun _ hc => absurd hc (by simp), fun _ => hdone⟩
    · rename_i rc vm' hrc _
      obtain rfl := some.inj h
      exact ⟨rfl, fun hok => absurd hok hrc, fun _ => hdone⟩
  · rename_i hdone
    rw [if_neg Bool.false_ne_true] at h
    cases consumed with
    | true =>
      obtain rfl := some.inj h
      exact ⟨rfl, fun _ _ => ⟨rfl, hdone⟩, fun hc => absurd hc (by simp)⟩
    | false =>
      obtain rfl := some.inj h
      exact ⟨rfl, fun _ _ => ⟨rfl, hdone⟩, fun hc => absurd hc (by simp)⟩

/-- The context has the ranges it had. -/
structure Ip6Kept (vm : Vm) (got : List Ip6Arrival) (reass reass' : Ip6FullReass) : Prop where
  ranges : reass'.ranges = reass.ranges
  dataLen : reass'.dataLen = reass.dataLen
  last : reass'.lastPacketOctet = ip6LastOctet vm got

/-- What becomes of a fragment, by what the loop finds. -/
def Ip6Outcome (maxReassLen : ℕ) (vm : Vm) (got : List Ip6Arrival) (reass : Ip6FullReass) (a : Ip6Arrival)
    (result : Option Ip6Updated) : Ip6Probe → Prop
  | .overlap => ∃ reass', Ip6Kept vm (got ++ [a]) reass reass' ∧
      result = some ⟨.overlap, vm, reass', some a.bi, none, .none, false⟩
  | .duplicate => ∃ reass', Ip6Kept vm (got ++ [a]) reass reass' ∧
      result = ip6CheckIfDone maxReassLen a.custom.isSome false vm a.bi reass' false
  | .consumed ranges => ∃ reass', reass'.ranges = ranges ∧
      reass'.dataLen = (reass.dataLen + (a.range vm).dataLen) % 2 ^ 32 ∧
      reass'.lastPacketOctet = ip6LastOctet vm (got ++ [a]) ∧
      result = ip6CheckIfDone maxReassLen a.custom.isSome false vm a.bi reass' true

/-- A fragment that meets a range has octets. -/
theorem length_ne_zero_of_meets {r : Ip6Range} (h : Ip6Reassembling vm got reass) (hr : r ∈ reass.ranges)
    (hm : r.iv.Meets (a.iv vm) ∨ r.iv = a.iv vm) :
    ip6FragmentLength vm a.bi a.fragHdrOffset ≠ 0 := by
  intro hzero
  have hempty : (a.iv vm).hi = (a.iv vm).lo := by simp only [Ip6Arrival.iv, hzero, add_zero]
  rcases hm with hm | heq
  · simp only [Iv.Meets] at hm
    omega
  · have := h.ordered.nonempty r.iv (mem_map_of_mem hr)
    rw [heq] at this
    omega

section
variable (h : Ip6Reassembling vm got reass) (ha : Ip6Accepted vm a)
include h ha

/-- A fragment with octets. -/
theorem ip6Receive_outcome (hlen : ip6FragmentLength vm a.bi a.fragHdrOffset ≠ 0) :
    ∃ p, Found (a.range vm) reass.ranges p ∧
      Ip6Outcome maxReassLen vm got reass a (ip6FullReassReceive maxReassLen thread vm reass a) p := by
  obtain ⟨hoff, hcl⟩ := ip6FragHdr_bounds ha.found
  have hhdr : ¬ ((vm.buffer a.bi).currentLength < 40 ∨ a.fragHdrOffset = 0 ∨
      a.fragHdrOffset ≥ (vm.buffer a.bi).currentLength) := by omega
  have hgood := ha.good hlen
  simp only [ip6FullReassReceive, ip6FullReassUpdate, if_neg hhdr, if_neg hlen]
  set reass₀ := ip6StoreNext a.custom
    { reass with
      lastHeard := a.now
      sendoutThreadIndex :=
        if ip6FragHdrOffsetBytes (vm.buffer a.bi) a.fragHdrOffset = 0 then thread
          else reass.sendoutThreadIndex } with hr₀
  obtain ⟨hranges, hdata, hoct⟩ : reass₀.ranges = reass.ranges ∧ reass₀.dataLen = reass.dataLen ∧
      reass₀.lastPacketOctet = reass.lastPacketOctet := by
    rw [hr₀]
    cases a.custom <;> exact ⟨rfl, rfl, rfl⟩
  have hlastOct : (if ip6FragHdrMore (vm.buffer a.bi) a.fragHdrOffset then reass₀.lastPacketOctet
      else ip6FragmentLast vm a.bi a.fragHdrOffset) = ip6LastOctet vm (got ++ [a]) := by
    rw [ip6LastOctet_append, hoct, h.last]
    rfl
  rw [hlastOct, hranges, hdata]
  split
  · -- the first fragment of the context
    rename_i hnil
    refine ⟨.consumed [a.range vm], ⟨by rw [hnil], ?_, by simp [hnil]⟩, _, ?_, ?_, ?_, rfl⟩ <;> try rfl
    exact ordered_ivs_cons.mpr ⟨hgood.nonempty, by simp, ⟨by simp [ivs], by simp [ivs]⟩⟩
  · rename_i hne
    have hfound := ip6Probe_found hgood.nonempty h.ordered hne
    have hfirst : (a.range vm).rangeFirst = a.first vm := by rw [ha.range_eq hlen]
    have hlast : (a.range vm).rangeLast = a.last vm := by rw [ha.range_eq hlen]
    rw [hfirst, hlast] at hfound
    generalize hp : ip6Probe (a.first vm) (a.last vm) (a.range vm) reass.ranges = p at hfound
    have hp' : ip6Probe (ip6FragHdrOffsetBytes (vm.buffer a.bi) a.fragHdrOffset)
      (ip6FragmentLast vm a.bi a.fragHdrOffset)
        ⟨Range.ofFragment a.bi (ip6FragHdrOffsetBytes (vm.buffer a.bi) a.fragHdrOffset)
          (ip6FragmentLast vm a.bi a.fragHdrOffset), a.fragHdrOffset⟩ reass.ranges = p := hp
    rw [hp']
    refine ⟨p, hfound, ?_⟩
    cases p with
    | overlap =>
      refine ⟨_, ?_, rfl⟩
      exact ⟨rfl, rfl, rfl⟩
    | duplicate =>
      refine ⟨_, ?_, rfl⟩
      exact ⟨rfl, rfl, rfl⟩
    | consumed ranges =>
      refine ⟨_, ?_, ?_, ?_, rfl⟩ <;> rfl

/-- What an update with a fragment comes to: where it is stored, ignored, or completes the context. -/
theorem ip6Receive_step (hu : ip6FullReassReceive maxReassLen thread vm reass a = some u)
    (hrc : u.rc = .ok ∨ u.completed = true) :
    Ip6Reassembling vm (got ++ [a]) u.reass ∧ (u.completed = true → u.reass.Complete) ∧
      (u.rc = .ok → u.completed = false → u.vm = vm ∧ ¬ u.reass.Complete) := by
  by_cases hlen : ip6FragmentLength vm a.bi a.fragHdrOffset = 0
  · -- a fragment without octets
    obtain ⟨hoff, hcl⟩ := ip6FragHdr_bounds ha.found
    have hhdr : ¬ ((vm.buffer a.bi).currentLength < 40 ∨ a.fragHdrOffset = 0 ∨
        a.fragHdrOffset ≥ (vm.buffer a.bi).currentLength) := by omega
    simp only [ip6FullReassReceive, ip6FullReassUpdate, if_neg hhdr, if_pos hlen] at hu
    obtain rfl := some.inj hu
    simp at hrc
  · obtain ⟨p, hfound, hout⟩ := @ip6Receive_outcome vm reass got a maxReassLen thread h ha hlen
    rw [hu] at hout
    cases p with
    | overlap =>
      obtain ⟨reass', -, heq⟩ := hout
      obtain rfl := some.inj heq
      simp at hrc
    | duplicate =>
      obtain ⟨reass', hkept, heq⟩ := hout
      obtain ⟨rfl, hsame, hdone⟩ := ip6CheckIfDone_cases heq.symm
      refine ⟨⟨?_, ?_, ?_, ?_, ?_, hkept.last⟩, hdone, hsame⟩
      · rw [hkept.ranges]
        exact h.good
      · rw [hkept.ranges]
        exact h.ordered
      · rw [hkept.ranges]
        intro r hr
        obtain ⟨x, hx, heq⟩ := h.origin r hr
        exact ⟨x, mem_append_left _ hx, heq⟩
      · rw [hkept.ranges]
        intro x hx
        rcases mem_append.mp hx with hx | hx
        · exact h.kept x hx
        · obtain rfl := mem_singleton.mp hx
          rwa [← ha.range_iv hlen]
      · rw [hkept.ranges, hkept.dataLen]
        exact h.dataLen
    | consumed ranges =>
      obtain ⟨reass', rfl, hdata, hlast, heq⟩ := hout
      obtain ⟨rfl, hsame, hdone⟩ := ip6CheckIfDone_cases heq.symm
      exact ⟨h.consumed (ha.good hlen) (ha.range_iv hlen) hfound.1 hfound.2.1 hdata hlast, hdone, hsame⟩

/-- A fragment that meets a range and is not the same makes the context be given up. -/
theorem ip6Receive_overlap (hover : ∃ r ∈ reass.ranges, r.iv.Meets (a.iv vm) ∧ r.iv ≠ a.iv vm) :
    ∃ u, ip6FullReassReceive maxReassLen thread vm reass a = some u ∧ u.rc = .overlap := by
  obtain ⟨r, hr, hm, -⟩ := id hover
  have hlen := length_ne_zero_of_meets h hr (.inl hm)
  obtain ⟨p, hfound, hout⟩ := @ip6Receive_outcome vm reass got a maxReassLen thread h ha hlen
  obtain rfl := hfound.overlap h.ordered (by rwa [ha.range_iv hlen])
  obtain ⟨reass', -, heq⟩ := hout
  exact ⟨_, heq, rfl⟩

/-- The fragment is dropped as a duplicate, and the context is as it was. -/
def Ip6Ignored (vm : Vm) (reass : Ip6FullReass) (a : Ip6Arrival) (u : Ip6Updated) : Prop :=
  u.rc = .ok ∧ u.completed = false ∧ u.vm = vm ∧ u.reass.ranges = reass.ranges ∧
  u.reass.dataLen = reass.dataLen ∧
    u.bi = some a.bi ∧ u.next = some .drop ∧ u.error = .duplicateFragment

/-- One that is there already is ignored, unless it has no `more` and announces as many octets as there are. -/
theorem ip6Receive_duplicate (hpending : ¬ reass.Complete) (hdup : ∃ r ∈ reass.ranges, r.iv = a.iv vm) :
    (∃ u, ip6FullReassReceive maxReassLen thread vm reass a = some u ∧ Ip6Ignored vm reass a u) ↔
      a.more vm = true ∨ reass.dataLen ≠ a.last vm + 1 := by
  obtain ⟨r, hr, heq⟩ := id hdup
  have hlen := length_ne_zero_of_meets h hr (.inr heq)
  obtain ⟨p, hfound, hout⟩ := @ip6Receive_outcome vm reass got a maxReassLen thread h ha hlen
  obtain rfl := hfound.duplicate h.ordered (ha.good hlen).nonempty (by rwa [ha.range_iv hlen])
  obtain ⟨reass', hkept, heq⟩ := hout
  have hcomplete : ¬ reass'.Complete ↔ a.more vm = true ∨ reass.dataLen ≠ a.last vm + 1 := by
    obtain ⟨hle, hlast⟩ := ha.spec
    obtain ⟨-, hlast⟩ := hlast hlen
    rw [Ip6FullReass.Complete, hkept.dataLen, hkept.last, ip6LastOctet_append]
    cases a.more vm with
    | true => simpa [← h.last, Ip6FullReass.Complete] using hpending
    | false =>
      simp only [Bool.false_eq_true, if_false, false_or, noOctet]
      omega
  rw [heq, ← hcomplete]
  constructor
  · rintro ⟨u, hu, hok, hc, -⟩
    exact ((ip6CheckIfDone_cases hu).2.1 hok hc).2
  · intro hnot
    rw [Ip6FullReass.Complete] at hnot
    rw [ip6CheckIfDone, Bool.and_false, if_neg Bool.false_ne_true, if_neg hnot]
    exact ⟨_, rfl, rfl, rfl, rfl, hkept.ranges, hkept.dataLen, rfl, rfl, rfl⟩

end

/-! ### Runs -/

/-- A whole run of fragments that were stored or ignored. -/
theorem ip6Run_reassembling {as : List Ip6Arrival} (h : Ip6Reassembling vm got reass) (hpending : ¬ reass.Complete)
    (ha : ∀ a ∈ as, Ip6Accepted vm a) {vm' : Vm} {reass' : Ip6FullReass}
    (hrun : ip6FullReassRun maxReassLen thread vm reass as = some (vm', reass')) :
    vm' = vm ∧ Ip6Reassembling vm (got ++ as) reass' ∧ ¬ reass'.Complete := by
  induction as generalizing got reass with
  | nil =>
    obtain ⟨rfl, rfl⟩ := Prod.mk.inj (some.inj hrun)
    exact ⟨rfl, by simpa using h, hpending⟩
  | cons a as ih =>
    rw [ip6FullReassRun] at hrun
    split at hrun
    · cases hrun
    · rename_i u hu
      split at hrun
      · rename_i hok
        obtain ⟨hstate, -, hsame⟩ := ip6Receive_step h (ha a mem_cons_self) hu (.inl hok.1)
        obtain ⟨hvm, hpending⟩ := hsame hok.1 hok.2
        rw [hvm] at hrun
        have := ih hstate hpending (fun x hx => ha x (mem_cons_of_mem a hx)) hrun
        simpa using this
      · cases hrun

/-- No fragment goes beyond the end that the latest fragment without `more` has announced. -/
def Ip6EndsLast (vm : Vm) (got : List Ip6Arrival) : Prop := ∀ a ∈ got, (a.iv vm).hi ≤ ip6LastOctet vm got + 1
deriving Decidable

/-- As many octets as the end says leave no gap just when none of them is beyond it. -/
theorem Ip6Reassembling.tiles_iff (h : Ip6Reassembling vm got reass) (ha : ∀ a ∈ got, Ip6Accepted vm a)
    (hcomplete : reass.Complete) :
    (∃ a ∈ got, a.more vm = false ∧ Tiles 0 (ivs reass.ranges) (a.iv vm).hi) ↔ Ip6EndsLast vm got := by
  obtain ⟨hoct, hcount⟩ := hcomplete
  rw [h.last] at hoct hcount
  have hd := h.dataLen
  constructor
  · rintro ⟨a, -, -, htiles⟩ x hx
    have hle : ∀ y ∈ ivs reass.ranges, y.lo ≤ y.hi := fun y hy => (h.ordered.nonempty y hy).le
    obtain ⟨-, hmeasure⟩ := htiles.measure_eq hle
    obtain ⟨r, hr, heq⟩ := h.kept x hx
    have hbound := (htiles.bounds hle r.iv (mem_map_of_mem hr)).2
    rw [heq] at hbound
    omega
  · intro hend
    obtain ⟨a, hmem, hmore, heq⟩ : ∃ a ∈ got, a.more vm = false ∧ ip6LastOctet vm got = a.last vm :=
      (foldl_announced (fun a : Ip6Arrival => a.more vm) (fun a => a.last vm) noOctet got).resolve_left hoct
    obtain ⟨hsum, -⟩ := (ha a hmem).spec
    have hlast : a.last vm + 1 = (a.iv vm).hi := by
      have hdef : a.last vm = (a.first vm + ip6FragmentLength vm a.bi a.fragHdrOffset + 2 ^ 32 - 1) % 2 ^ 32 := rfl
      rw [heq, hdef, noOctet] at hoct
      simp only [Ip6Arrival.iv]
      omega
    have hsmall : (a.iv vm).hi ≤ 65535 := hsum
    refine ⟨a, hmem, hmore, h.ordered.tiles (Nat.zero_le _) (fun _ _ => Nat.zero_le _) ?_ (by omega)⟩
    rw [ivs, forall_mem_map]
    intro r hr
    obtain ⟨x, hx, hrx⟩ := h.origin r hr
    have := hend x hx
    rw [hrx]
    omega

/-- A buffer with a fragment: an IPv6 header, a fragment header, and `payload`. -/
def ip6FragmentBuffer (units : ℕ) (more : Bool) (payload : Bytes) : VlibBuffer :=
  bufferOf ([0x60, 0, 0, 0] ++ toBe 2 (8 + payload.length) ++ [44, 64] ++ replicate 32 1 ++
    [17, 0] ++ toBe 2 (8 * units + more.toNat) ++ [0, 0, 0, 5] ++ payload)

/-- Whatever fragments come for a context, in any order. The ranges of a context that is completed follow each other
    from offset 0 to the end of a last fragment just when no fragment goes beyond the end announced last. One that
    overlaps a range makes the context be given up, and one that is there already is ignored, just when it does not
    announce that the octets held are all. -/
theorem ip6FullReass_complete (as : List Ip6Arrival) (a : Ip6Arrival)
    (ha : ∀ x ∈ as ++ [a], Ip6Accepted vm x) {vm' : Vm}
    (hrun : ip6FullReassRun maxReassLen thread vm (ip6FullReassInit now thread) as = some (vm', reass)) :
    (∀ u, ip6FullReassReceive maxReassLen thread vm' reass a = some u → u.completed = true →
      Ordered (ivs u.reass.ranges) ∧
        ((∃ x ∈ as ++ [a], x.more vm = false ∧ Tiles 0 (ivs u.reass.ranges) (x.iv vm).hi) ↔
          Ip6EndsLast vm (as ++ [a]))) ∧
    ((∃ r ∈ reass.ranges, r.iv.Meets (a.iv vm) ∧ r.iv ≠ a.iv vm) →
      ∃ u, ip6FullReassReceive maxReassLen thread vm' reass a = some u ∧ u.rc = .overlap) ∧
    ((∃ r ∈ reass.ranges, r.iv = a.iv vm) →
      ((∃ u, ip6FullReassReceive maxReassLen thread vm' reass a = some u ∧ Ip6Ignored vm reass a u) ↔
        a.more vm = true ∨ reass.dataLen ≠ a.last vm + 1)) := by
  obtain ⟨rfl, hstate, hpending⟩ := ip6Run_reassembling (Ip6Reassembling.init vm now thread)
    (fun hc => hc.1 rfl) (fun x hx => ha x (mem_append_left _ hx)) hrun
  have ha' := ha a (by simp)
  refine ⟨fun u hu hc => ?_, ip6Receive_overlap hstate ha', ip6Receive_duplicate hstate ha' hpending⟩
  obtain ⟨hdone, hcomplete, -⟩ := ip6Receive_step hstate ha' hu (.inr hc)
  exact ⟨hdone.ordered, hdone.tiles_iff ha (hcomplete hc)⟩

theorem ip6FullReass_complete_two :
    let vm := twoBuffers (ip6FragmentBuffer 1 false (replicate 5 7)) (ip6FragmentBuffer 0 true (replicate 8 9))
    ∃ vm' reass u, ip6FullReassRun 3 0 vm (ip6FullReassInit 0 0) [⟨0, 40, none, 0⟩] = some (vm', reass) ∧
      ip6FullReassReceive 3 0 vm' reass ⟨1, 40, none, 1⟩ = some u ∧ u.completed = true ∧
      ∃ x ∈ [(⟨0, 40, none, 0⟩ : Ip6Arrival), ⟨1, 40, none, 1⟩], x.more vm = false ∧
        Tiles 0 (ivs u.reass.ranges) (x.iv vm).hi := by
  intro vm
  have hcomp : ((ip6FullReassRun 3 0 vm (ip6FullReassInit 0 0) [⟨0, 40, none, 0⟩]).bind fun s =>
      (ip6FullReassReceive 3 0 s.1 s.2 ⟨1, 40, none, 1⟩).map Ip6Updated.completed) = some true := by decide +kernel
  obtain ⟨⟨vm', reass⟩, hrun, hu'⟩ := Option.bind_eq_some_iff.mp hcomp
  obtain ⟨u, hu, hc⟩ := Option.map_eq_some_iff.mp hu'
  have h := ip6FullReass_complete [⟨0, 40, none, 0⟩] ⟨1, 40, none, 1⟩ (by decide +kernel) hrun
  exact ⟨vm', reass, u, hrun, hu, hc, (h.1 u hu hc).2.mpr (by decide +kernel)⟩

/-- The octets 24 to 31, and then a last fragment with the octets 8 to 15: 16 octets are held, and the datagram is
    complete without the octets 0 to 7. -/
theorem ip6FullReass_not_complete :
    let vm := twoBuffers (ip6FragmentBuffer 3 true (replicate 8 7)) (ip6FragmentBuffer 1 false (replicate 8 9))
    (∀ x ∈ [(⟨0, 40, none, 0⟩ : Ip6Arrival), ⟨1, 40, none, 1⟩], Ip6Accepted vm x) ∧
      ∃ vm' reass u, ip6FullReassRun 3 0 vm (ip6FullReassInit 0 0) [⟨0, 40, none, 0⟩] = some (vm', reass) ∧
        ip6FullReassReceive 3 0 vm' reass ⟨1, 40, none, 1⟩ = some u ∧ u.completed = true ∧ u.rc = .ok ∧
        ∀ e, ¬ Tiles 0 (ivs u.reass.ranges) e := by
  intro vm
  have hcomp : ((ip6FullReassRun 3 0 vm (ip6FullReassInit 0 0) [⟨0, 40, none, 0⟩]).bind fun s =>
      (ip6FullReassReceive 3 0 s.1 s.2 ⟨1, 40, none, 1⟩).map fun u =>
        (u.completed, u.rc, ivs u.reass.ranges)) = some (true, .ok, [⟨8, 16⟩, ⟨24, 32⟩]) := by decide +kernel
  obtain ⟨⟨vm', reass⟩, hrun, hu'⟩ := Option.bind_eq_some_iff.mp hcomp
  obtain ⟨u, hu, heq⟩ := Option.map_eq_some_iff.mp hu'
  obtain ⟨hc, heq⟩ := Prod.mk.inj heq
  obtain ⟨hrc, hranges⟩ := Prod.mk.inj heq
  refine ⟨by decide +kernel, vm', reass, u, hrun, hu, hc, hrc, fun e htiles => ?_⟩
  rw [hranges] at htiles
  exact absurd htiles.1 (by decide)

end Vpp.Ip
