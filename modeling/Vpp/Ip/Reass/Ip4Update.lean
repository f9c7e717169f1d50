import Vpp.Ip.Reass.Ip4Probe
import Vpp.Ip.Reass.Ip4Finalize

/-! The fragments of one context, one after the other.

    `Reassembling vm₀ got vm reass`: the fragments `got`, in the order in which they came, have made the
    context `reass`. The octets it holds are those of the fragments, each once; the end of the datagram is
    what the latest fragment without `more_fragments` has said; and the packets of the ranges are as they
    came. One more fragment keeps this, whatever it overlaps (`update_next`). -/

namespace Vpp.Ip
open Vpp.Schemes Vpp.Vlib List Range

variable {vm₀ vm : Vm} {got : List ℕ} {reass : Ip4FullReass} {bi : ℕ} {b : VlibBuffer}

/-- A fragment that passes the checks of `ip4_full_reass_inline`. -/
@[mk_iff]
structure Accepted (b : VlibBuffer) : Prop where
  fragment : isWholePacket b = false
  bounds : isMalformed b = false

instance (b : VlibBuffer) : Decidable (Accepted b) := decidable_of_iff' _ (accepted_iff b)

/-- The bounds of a fragment are what its header says, unless that is longer than the packet: the check itself wraps
    around where the difference is made up for by the offset. -/
theorem Accepted.spec (h : Accepted b) (hle : ip4HeaderBytes b ≤ ip4Length b) :
    fragmentFirst b ≤ fragmentLast b ∧ fragmentLast b < 65515 ∧ ip4HeaderBytes b < ip4Length b ∧
      fragmentLast b + 1 = fragmentFirst b + (ip4Length b - ip4HeaderBytes b) := by
  have hb := h.bounds
  have hf := h.fragment
  simp only [isMalformed, Bool.or_eq_false_iff, decide_eq_false_iff_not, Bool.and_eq_false_imp, decide_eq_true_eq]
    at hb
  obtain ⟨⟨horder, hsum⟩, hmin⟩ := hb
  have hoff : fragmentFirst b ≤ 65528 := by
    have : ip4GetFragmentOffset b ≤ 0x1fff := Nat.and_le_right
    rw [fragmentFirst, ip4GetFragmentOffsetBytes]
    omega
  have hip : ip4Length b < 2 ^ 16 := by
    have := ofBe_lt [b.current 2, b.current 3]
    simpa [ip4Length] using this
  have hlen : fragmentLength b = (ip4Length b + 2 ^ 32 - ip4HeaderBytes b) % 2 ^ 32 := rfl
  have hlast : fragmentLast b = (fragmentFirst b + fragmentLength b + 2 ^ 32 - 1) % 2 ^ 32 := rfl
  -- a fragment without payload is not accepted
  have hne : fragmentLength b ≠ 0 ∨ fragmentFirst b ≠ 0 := by
    by_contra hboth
    push Not at hboth
    obtain ⟨h0, h1⟩ := hboth
    have hoff0 : ip4GetFragmentOffset b = 0 := by
      rw [fragmentFirst, ip4GetFragmentOffsetBytes] at h1
      omega
    have hmore : ip4GetFragmentMore b = true := by
      simpa [isWholePacket, hoff0] using hf
    rw [hmin (by omega)] at hmore
    cases hmore
  omega

/-! ### The fragments that come -/

/-- The fragments `got` come in packets that are apart from each other. -/
@[mk_iff]
structure Arriving (vm₀ : Vm) (got : List ℕ) : Prop where
  accepted : ∀ bi ∈ got, Accepted (vm₀.buffer bi)
  header : ∀ bi ∈ got, ip4HeaderBytes (vm₀.buffer bi) ≤ ip4Length (vm₀.buffer bi)
  packet : ∀ bi ∈ got, Packet vm₀ bi (vm₀.chain bi)
  nodup : (got.flatMap vm₀.chain).Nodup

instance (vm₀ : Vm) (got : List ℕ) : Decidable (Arriving vm₀ got) := decidable_of_iff' _ (arriving_iff vm₀ got)

theorem Arriving.of_append {more : List ℕ} (h : Arriving vm₀ (got ++ more)) : Arriving vm₀ got where
  accepted bi hbi := h.accepted bi (mem_append_left more hbi)
  header bi hbi := h.header bi (mem_append_left more hbi)
  packet bi hbi := h.packet bi (mem_append_left more hbi)
  nodup := by
    have := h.nodup
    rw [flatMap_append] at this
    exact (nodup_append.mp this).1

/-- The packets of different fragments have no buffer in common. -/
theorem Arriving.disjoint (h : Arriving vm₀ got) {a b : ℕ} (ha : a ∈ got) (hb : b ∈ got) (hne : a ≠ b) :
    (vm₀.chain a).Disjoint (vm₀.chain b) := by
  have : Std.Symm (Function.onFun List.Disjoint vm₀.chain) := ⟨fun _ _ hd => hd.symm⟩
  exact (nodup_flatMap.mp h.nodup).2.forall ha hb hne

theorem Arriving.nodup_of_subset (h : Arriving vm₀ got) {l : List ℕ} (hl : l.Nodup) (hsub : l ⊆ got) :
    (l.flatMap vm₀.chain).Nodup :=
  nodup_flatMap.mpr ⟨fun _ hi => (h.packet _ (hsub hi)).nodup,
    hl.pairwise_of_forall_ne fun _ ha _ hb hne => h.disjoint (hsub ha) (hsub hb) hne⟩

theorem Arriving.nodup_got (h : Arriving vm₀ got) : got.Nodup := by
  refine (nodup_flatMap.mp h.nodup).2.imp_of_mem ?_
  rintro a b ha hb hd rfl
  have hmem := (h.packet a ha).head_mem
  exact hd hmem hmem

/-! ### Discarding packets -/

theorem sameOutside_discardBuffers {l : List ℕ} (h : Packet vm bi l) : SameOutside l vm (discardBuffers vm bi) := by
  rw [discardBuffers, h.chain_eq]
  exact sameOutside_dropBuffers l

/-! ### The context -/

/-- The end of the datagram, as the latest fragment without `more_fragments` has it. -/
def lastOctet (vm₀ : Vm) (got : List ℕ) : ℕ :=
  got.foldl (fun o bi => if ip4GetFragmentMore (vm₀.buffer bi) then o else fragmentLast (vm₀.buffer bi)) noOctet

/-- The fragment has the octet. -/
def Carries (vm₀ : Vm) (bi q : ℕ) : Prop :=
  fragmentFirst (vm₀.buffer bi) ≤ q ∧ q ≤ fragmentLast (vm₀.buffer bi)

/-- The fragments `got` have made the context `reass`, and the buffers are now `vm`. -/
structure Reassembling (vm₀ : Vm) (got : List ℕ) (vm : Vm) (reass : Ip4FullReass) : Prop where
  good : ∀ r ∈ reass.ranges, r.Good
  ordered : Ordered (reass.ranges.map iv)
  has : ∀ q, Has reass.ranges q ↔ ∃ bi ∈ got, Carries vm₀ bi q
  dataLen : reass.dataLen = held reass.ranges
  origin : ∀ r ∈ reass.ranges, r.bi ∈ got ∧ r.fragmentFirst = fragmentFirst (vm₀.buffer r.bi) ∧
    r.fragmentLast = fragmentLast (vm₀.buffer r.bi)
  nodup : (reass.ranges.map Range.bi).Nodup
  last : reass.lastPacketOctet = lastOctet vm₀ got
  fragmentsN : reass.fragmentsN = got.length
  same : SameOutside (got.flatMap vm₀.chain) vm₀ vm
  kept : ∀ r ∈ reass.ranges, ∀ i ∈ vm₀.chain r.bi, vm.buffer i = vm₀.buffer i

theorem held_lt {ranges : List Range} (hgood : ∀ r ∈ ranges, r.Good) (hord : Ordered (ranges.map iv)) :
    held ranges < 2 ^ 16 := by
  have := hord.measure_le (Nat.zero_le (2 ^ 16 - 1)) (fun _ _ => Nat.zero_le _) (by
    rw [forall_mem_map]
    intro r hr
    have := (hgood r hr).lt
    simp only [iv]
    omega)
  rw [held]
  omega

namespace Reassembling

section

variable (h : Reassembling vm₀ got vm reass)
include h

theorem subset : reass.ranges.map Range.bi ⊆ got := by
  intro bi hbi
  obtain ⟨r, hr, rfl⟩ := mem_map.mp hbi
  exact (h.origin r hr).1

/-- The packets of the ranges are there. -/
theorem packet (ha : Arriving vm₀ got) {r : Range} (hr : r ∈ reass.ranges) :
    Packet vm r.bi (vm₀.chain r.bi) :=
  (ha.packet r.bi (h.origin r hr).1).of_links h.same.nBuffers fun i hi => by simp [h.kept r hr i hi]

theorem ranges_ne_nil (ha : Arriving vm₀ got) (hne : got ≠ []) :
    reass.ranges ≠ [] := by
  intro hnil
  obtain ⟨bi, hbi⟩ := exists_mem_of_ne_nil got hne
  have hle := ((ha.accepted bi hbi).spec (ha.header bi hbi)).1
  have : Has reass.ranges (fragmentFirst (vm₀.buffer bi)) := (h.has _).mpr ⟨bi, hbi, le_refl _, hle⟩
  rw [hnil] at this
  exact has_nil _ this

/-- What finalizing needs to know of the ranges. -/
theorem stored (ha : Arriving vm₀ got) : Stored vm reass.ranges := by
  have hchain : ∀ r ∈ reass.ranges, vm.chain r.bi = vm₀.chain r.bi := fun r hr => (h.packet ha hr).chain_eq
  refine ⟨h.good, fun r hr => by rw [hchain r hr]; exact h.packet ha hr, ?_⟩
  have hbuf : buffersOf vm reass.ranges = (reass.ranges.map Range.bi).flatMap vm₀.chain := by
    rw [buffersOf, flatMap_map]
    exact flatMap_congr hchain
  rw [hbuf]
  exact ha.nodup_of_subset h.nodup h.subset

end

end Reassembling

/-- The context before the first fragment. -/
theorem Reassembling.init (vm₀ : Vm) {reass : Ip4FullReass} (hr : reass.ranges = [])
    (hlast : reass.lastPacketOctet = noOctet) (hlen : reass.dataLen = 0) (hn : reass.fragmentsN = 0) :
    Reassembling vm₀ [] vm₀ reass := by
  refine ⟨by simp [hr], by rw [hr]; exact ⟨by simp, by simp⟩, fun q => ?_, by rw [hlen, hr]; rfl,
    by simp [hr], by simp [hr],
    hlast, hn, SameOutside.refl _ _, by simp [hr]⟩
  rw [hr]
  simp

/-! ### One more fragment -/

theorem lastOctet_append (vm₀ : Vm) (got : List ℕ) (bi : ℕ) : lastOctet vm₀ (got ++ [bi]) =
    if ip4GetFragmentMore (vm₀.buffer bi) then lastOctet vm₀ got else fragmentLast (vm₀.buffer bi) := by
  simp [lastOctet]

/-- The fragment in a buffer, as a range. -/
def fragmentRange (bi : ℕ) (b : VlibBuffer) : Range :=
  ⟨bi, fragmentFirst b, fragmentLast b, fragmentFirst b, fragmentLast b⟩

theorem Accepted.incoming (h : Accepted b) (hle : ip4HeaderBytes b ≤ ip4Length b) (bi : ℕ) :
    ofFragment bi (fragmentFirst b) (fragmentLast b) = fragmentRange bi b ∧
      Incoming (fragmentFirst b) (fragmentLast b) (fragmentRange bi b) := by
  obtain ⟨hle, hlt, -, -⟩ := h.spec hle
  have hlt' : fragmentLast b < 2 ^ 16 - 1 := lt_of_lt_of_le hlt (by decide)
  have heq : ofFragment bi (fragmentFirst b) (fragmentLast b) = fragmentRange bi b :=
    ofFragment_eq bi hle hlt'
  exact ⟨heq, heq ▸ good_ofFragment bi hle hlt', rfl, rfl⟩

theorem noteLast_storeNext (custom : Option (ℕ × ℕ)) (reass : Ip4FullReass) (b : VlibBuffer) :
    let noted := noteLast (storeNext custom reass) b
    noted.ranges = reass.ranges ∧ noted.dataLen = reass.dataLen ∧ noted.fragmentsN = reass.fragmentsN ∧
      noted.lastPacketOctet = if ip4GetFragmentMore b then reass.lastPacketOctet else fragmentLast b := by
  rcases custom with _ | ⟨n, e⟩ <;> exact ⟨rfl, rfl, rfl, rfl⟩

variable (maxReassLen : ℕ)

section

variable (custom : Option (ℕ × ℕ))
include custom

/-- The first fragment of a context is stored. -/
theorem update_empty (hnil : reass.ranges = []) (hd0 : reass.dataLen = 0) (hb : vm.buffer bi = b)
    (h : Accepted b) (hle : ip4HeaderBytes b ≤ ip4Length b) :
    ∃ reass', ip4FullReassUpdate maxReassLen custom vm reass bi =
      some ⟨.ok, vm, reass', none, none, .none, false⟩ ∧
      reass'.ranges = [fragmentRange bi b] ∧ reass'.dataLen = (fragmentRange bi b).dataLen ∧
      reass'.fragmentsN = 1 ∧
      reass'.lastPacketOctet = if ip4GetFragmentMore b then reass.lastPacketOctet else fragmentLast b := by
  obtain ⟨heq, hin⟩ := h.incoming hle bi
  obtain ⟨hranges, hdl, -, hlast⟩ := noteLast_storeNext custom reass b
  have hndl := (fragmentRange bi b).dataLen_lt
  refine ⟨{ noteLast (storeNext custom reass) b with
            ranges := [fragmentRange bi b], dataLen := (fragmentRange bi b).dataLen
            minFragmentLength := ip4Length b, fragmentsN := 1 }, ?_, rfl, rfl, rfl, hlast⟩
  simp only [ip4FullReassUpdate, hb, heq]
  rw [if_pos (by rw [hranges, hnil]), insert_eq hin.good (by rw [hdl, hd0]; omega)]
  simp [hdl, hd0]

/-- A later fragment goes through the loop, and then it is seen whether the datagram is complete. -/
theorem update_probed (hne : reass.ranges ≠ []) (hgood : ∀ r ∈ reass.ranges, r.Good)
    (hord : Ordered (reass.ranges.map iv)) (hdata : reass.dataLen = held reass.ranges)
    (hb : vm.buffer bi = b) (h : Accepted b) (hle : ip4HeaderBytes b ≤ ip4Length b) :
    ∃ reass' p, ip4FullReassUpdate maxReassLen custom vm reass bi =
      checkComplete maxReassLen custom.isSome bi reass' p ∧
      Probed (fragmentLast b) vm reass.dataLen (fragmentRange bi b) reass.ranges p ∧
      reass'.fragmentsN = reass.fragmentsN + 1 ∧
      reass'.lastPacketOctet = if ip4GetFragmentMore b then reass.lastPacketOctet else fragmentLast b := by
  obtain ⟨heq, hin⟩ := h.incoming hle bi
  obtain ⟨hranges, hdl, hfn, hlast⟩ := noteLast_storeNext custom reass b
  have hlen : reass.dataLen < 2 ^ 31 := by
    have := held_lt hgood hord
    rw [hdata]
    omega
  have hp : Probed (fragmentLast b) vm reass.dataLen (fragmentRange bi b) reass.ranges
      (probe (fragmentFirst b) (fragmentLast b) reass.ranges vm reass.dataLen (fragmentRange bi b)) :=
    probe_spec hin rfl hgood hord hne (by rw [hdata]) hlen
  set p := probe (fragmentFirst b) (fragmentLast b) reass.ranges vm reass.dataLen (fragmentRange bi b) with hpdef
  refine ⟨{ noteLast (storeNext custom reass) b with
            minFragmentLength := min (ip4Length b) (fragmentFirst b % 2 ^ 16)
            fragmentsN := reass.fragmentsN + 1 }, p, ?_, hp, rfl, hlast⟩
  simp only [ip4FullReassUpdate, hb, heq]
  rw [if_neg (by rw [hranges]; exact hne)]
  simp only [hranges, hdl, hfn, ← hpdef, hp.rc, ne_eq, not_true_eq_false, ↓reduceIte]

/-- The first fragment makes the context. -/
theorem update_first (h : Reassembling vm₀ [] vm reass) (ha : Arriving vm₀ [bi]) :
    ∃ reass', ip4FullReassUpdate maxReassLen custom vm reass bi =
      some ⟨.ok, vm, reass', none, none, .none, false⟩ ∧
      Reassembling vm₀ [bi] vm reass' := by
  have hbuf : vm.buffer bi = vm₀.buffer bi := h.same.buffer bi (by simp)
  have hacc := ha.accepted bi (mem_singleton_self bi)
  have hle := ha.header bi (mem_singleton_self bi)
  have hin := (hacc.incoming hle bi).2
  have hnil : reass.ranges = [] := by
    cases hr : reass.ranges with
    | nil => rfl
    | cons r rest =>
      have := (h.origin r (by rw [hr]; exact mem_cons_self)).1
      cases this
  have hd0 : reass.dataLen = 0 := by rw [h.dataLen, hnil]; rfl
  obtain ⟨reass', hupd, hranges, hdl, hfn, hlast⟩ := update_empty maxReassLen custom hnil hd0 hbuf hacc hle
  refine ⟨reass', hupd, ?_, ?_, fun q => ?_, ?_, ?_, ?_, ?_, hfn, ?_, ?_⟩
  · rw [hranges]
    exact forall_mem_singleton.mpr hin.good
  · rw [hranges]
    exact ordered_map_cons.mpr ⟨hin.good.nonempty, by simp, ⟨by simp, by simp⟩⟩
  · rw [hranges, has_cons]
    simp [Carries, fragmentRange]
  · rw [hranges, held_cons hin.good, held_nil, add_zero, hdl]
  · rw [hranges]
    exact forall_mem_singleton.mpr ⟨mem_singleton_self bi, rfl, rfl⟩
  · rw [hranges]
    simp
  · rw [hlast, h.last]
    exact (lastOctet_append vm₀ [] bi).symm
  · exact h.same.mono (nil_subset _)
  · exact fun r _ i _ => h.same.buffer i (by simp)

/-- A later fragment keeps what the context is, whatever it overlaps. -/
theorem update_next (h : Reassembling vm₀ got vm reass) (hne : got ≠ [])
    (ha : Arriving vm₀ (got ++ [bi])) :
    ∃ reass' p, ip4FullReassUpdate maxReassLen custom vm reass bi =
      checkComplete maxReassLen custom.isSome bi reass' p ∧
      Reassembling vm₀ (got ++ [bi]) p.vm { reass' with ranges := p.ranges, dataLen := p.dataLen } := by
  have ha' := ha.of_append
  have hbin : bi ∈ got ++ [bi] := mem_append_right got (mem_singleton_self bi)
  have hnd := ha.nodup
  rw [flatMap_append] at hnd
  have hout : ∀ i ∈ vm₀.chain bi, i ∉ got.flatMap vm₀.chain := fun i hi hg =>
    disjoint_of_nodup_append hnd hg (by simpa using hi)
  have hbuf : vm.buffer bi = vm₀.buffer bi := h.same.buffer bi (hout bi (ha.packet bi hbin).head_mem)
  obtain ⟨reass', p, hupd, hp, hfn, hlast⟩ :=
    update_probed maxReassLen custom (h.ranges_ne_nil ha' hne) h.good h.ordered
    h.dataLen hbuf (ha.accepted bi hbin) (ha.header bi hbin)
  refine ⟨reass', p, hupd, ?_⟩
  -- the packets of the ranges that are held are not among those discarded
  obtain ⟨discarded, hdsub, hvm, hperm⟩ := hp.buffers
  have hdgot : discarded ⊆ got := fun d hd => h.subset (hdsub hd)
  have hbg : bi ∉ got := fun hb => by
    have := ha.nodup_got
    rw [nodup_append] at this
    exact this.2.2 bi hb bi (mem_singleton_self bi) rfl
  have hall : (bi :: reass.ranges.map Range.bi).Nodup :=
    nodup_cons.mpr ⟨fun hb => hbg (h.subset hb), h.nodup⟩
  have hkd : (p.ranges.map Range.bi ++ discarded).Nodup := (nodup_append.mp (hperm.nodup_iff.mpr hall)).1
  obtain ⟨hkn, hdn, -⟩ := nodup_append.mp hkd
  have hpk : ∀ d ∈ discarded, Packet vm d (vm₀.chain d) := by
    intro d hd
    obtain ⟨r, hr, rfl⟩ := mem_map.mp (hdsub hd)
    exact h.packet ha' hr
  have hdsame := foldl_release sameOutside_discardBuffers hpk (ha'.nodup_of_subset hdn hdgot)
  rw [← hvm] at hdsame
  have horigin : ∀ r ∈ p.ranges, r.bi ∈ got ++ [bi] ∧ r.fragmentFirst = fragmentFirst (vm₀.buffer r.bi) ∧
      r.fragmentLast = fragmentLast (vm₀.buffer r.bi) := by
    intro r hr
    obtain ⟨c, hc, hbi, hfirst, hlst⟩ := hp.origin r hr
    rcases mem_cons.mp hc with rfl | hc
    · rw [hbi, hfirst, hlst]
      exact ⟨hbin, rfl, rfl⟩
    · obtain ⟨hmem, h1, h2⟩ := h.origin c hc
      rw [hbi, hfirst, hlst]
      exact ⟨mem_append_left _ hmem, h1, h2⟩
  refine ⟨hp.good, hp.ordered, fun q => ?_, ?_, horigin, hkn, ?_, ?_, ?_, ?_⟩
  · simp only [hp.has q, h.has q, mem_append, mem_singleton, or_and_right, exists_or, exists_eq_left]
    rfl
  · have hcount := hp.count
    have := h.dataLen
    simp only
    omega
  · simp only [hlast, h.last]
    exact (lastOctet_append vm₀ got bi).symm
  · simp [hfn, h.fragmentsN]
  · refine (h.same.trans hdsame).mono ?_
    rw [flatMap_append]
    refine append_subset.mpr ⟨subset_append_left _ _, fun i hi => ?_⟩
    obtain ⟨d, hd, hid⟩ := mem_flatMap.mp hi
    exact mem_append_left _ (mem_flatMap.mpr ⟨d, hdgot hd, hid⟩)
  · intro r hr i hi
    have hrd : i ∉ discarded.flatMap vm₀.chain := by
      intro hmem
      obtain ⟨d, hd, hid⟩ := mem_flatMap.mp hmem
      have hrne : r.bi ≠ d := fun heq =>
        disjoint_of_nodup_append hkd (mem_map_of_mem hr) (heq ▸ hd)
      exact ha.disjoint (horigin r hr).1 (mem_append_left _ (hdgot hd)) hrne hi hid
    rw [hdsame.buffer i hrd]
    obtain ⟨c, hc, hbi, -⟩ := hp.origin r hr
    rcases mem_cons.mp hc with rfl | hc
    · rw [hbi] at hi
      exact h.same.buffer i (hout i hi)
    · rw [hbi] at hi
      exact h.kept c hc i hi

end

end Vpp.Ip
