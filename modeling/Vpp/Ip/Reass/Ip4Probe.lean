import Vpp.Ip.Reass.Ip4
import Vpp.Ip.Reass.Held

/-! A fragment among the ranges: what the loop of `ip4_full_reass_update` makes of them.

    The loop first passes the ranges that end before the fragment starts. From then on every range starts
    inside the fragment or behind it: ranges inside are discarded, one that sticks out is trimmed, and the
    fragment goes in front of what is left.

    `Probed` is what all outcomes have in common: the octets held are those held before and those of the
    fragment, the count of them is right, and each buffer is held, discarded or the ignored fragment. -/

namespace Vpp.Ip
open Vpp.Schemes Vpp.Vlib List
open Range (iv)

variable {ff fl dataLen : ℕ} {vm : Vm} {new c : Range} {cands rest : List Range} {p : Probe}

/-- The number of octets held. -/
def held (ranges : List Range) : ℕ := measure (ranges.map iv)

@[simp] theorem held_nil : held [] = 0 := rfl

theorem held_cons (hc : c.Good) : held (c :: rest) = c.dataLen + held rest := by
  rw [held, map_cons, measure_cons, hc.dataLen]
  rfl

/-- Some range has the octet. -/
def Has (ranges : List Range) (q : ℕ) : Prop := ∃ r ∈ ranges, r.iv.Has q

@[simp] theorem has_nil (q : ℕ) : ¬ Has [] q := by
  rintro ⟨r, hr, -⟩
  cases hr

@[simp] theorem has_cons (q : ℕ) : Has (c :: rest) q ↔ (c.rangeFirst ≤ q ∧ q ≤ c.rangeLast) ∨
    Has rest q := by
  simp only [Has, Iv.Has, iv, Nat.lt_succ_iff, exists_mem_cons_iff]

/-- The fragment as the loop carries it: it may have lost a front part. -/
structure Incoming (ff fl : ℕ) (new : Range) : Prop where
  good : new.Good
  first : new.fragmentFirst = ff
  last : new.rangeLast = fl

/-- What the loop makes of the ranges `cands` and the fragment. -/
structure Probed (fl : ℕ) (vm : Vm) (dataLen : ℕ) (new : Range) (cands : List Range) (p : Probe) : Prop where
  rc : p.rc = .ok
  good : ∀ r ∈ p.ranges, r.Good
  ordered : Ordered (p.ranges.map iv)
  lower : ∀ b, b ≤ new.rangeFirst → (∀ c ∈ cands, b ≤ c.rangeFirst) →
    ∀ r ∈ p.ranges, b ≤ r.rangeFirst
  has : ∀ q, Has p.ranges q ↔ Has cands q ∨ (new.rangeFirst ≤ q ∧ q ≤ fl)
  count : p.dataLen + held cands = dataLen + held p.ranges
  origin : ∀ r ∈ p.ranges, ∃ c ∈ new :: cands, r.SameFragment c
  buffers : ∃ discarded, discarded ⊆ cands.map Range.bi ∧ p.vm = discarded.foldl discardBuffers vm ∧
    (p.ranges.map Range.bi ++ discarded ++ if p.consumed then [] else [new.bi]).Perm
      (new.bi :: cands.map Range.bi)
  ignored : p.consumed = false → p.ranges = cands ∧ p.vm = vm ∧ p.dataLen = dataLen ∧
    ∃ c ∈ cands, c.rangeFirst ≤ new.rangeFirst ∧ fl ≤ c.rangeLast

/-- The fragment was put in, in front of all of them. -/
structure Put (fl : ℕ) (vm : Vm) (dataLen : ℕ) (new : Range) (cands : List Range) (p : Probe) : Prop where
  probed : Probed fl vm dataLen new cands p
  consumed : p.consumed = true

/-- The octets of the first range of an ordered list come first. -/
theorem ordered_map_cons : Ordered ((c :: rest).map iv) ↔
    c.rangeFirst ≤ c.rangeLast ∧ (∀ r ∈ rest, c.rangeLast < r.rangeFirst) ∧ Ordered (rest.map iv) := by
  rw [map_cons, ordered_cons, forall_mem_map]
  simp only [iv, Nat.lt_succ_iff, Nat.succ_le_iff]

/-! ### Putting the fragment in -/

/-- `ip4_full_reass_insert_range_in_chain` -/
theorem insert_eq (h : new.Good) (hlen : dataLen + new.dataLen < 2 ^ 32) (vm : Vm) (rest : List Range) :
    ip4FullReassInsertRangeInChain vm dataLen new rest = ⟨.ok, vm, new :: rest, dataLen + new.dataLen, true⟩ := by
  rw [ip4FullReassInsertRangeInChain, if_neg (by simp [h.sane]), Nat.mod_eq_of_lt hlen]

theorem Range.dataLen_lt (r : Range) : r.dataLen < 2 ^ 16 := Nat.mod_lt _ (by decide)

/-- The fragment goes in front of ranges that start behind it. -/
theorem put_insert (hin : Incoming ff fl new) (hgood : ∀ c ∈ cands, c.Good)
    (hord : Ordered (cands.map iv)) (hlt : ∀ c ∈ cands, fl < c.rangeFirst)
    (hlen : dataLen < 2 ^ 31) :
    Put fl vm dataLen new cands (ip4FullReassInsertRangeInChain vm dataLen new cands) := by
  have hnew := hin.good
  have hdl := new.dataLen_lt
  rw [insert_eq hnew (by omega)]
  refine ⟨⟨rfl, ?_, ?_, ?_, ?_, ?_, ?_, ⟨[], by simp, rfl, by simp⟩, fun h => absurd h (by simp)⟩, rfl⟩
  · exact forall_mem_cons.mpr ⟨hnew, hgood⟩
  · exact ordered_map_cons.mpr ⟨hnew.nonempty, fun r hr => by rw [hin.last]; exact hlt r hr, hord⟩
  · exact fun b hb hbc => forall_mem_cons.mpr ⟨hb, hbc⟩
  · intro q
    rw [has_cons, hin.last, or_comm]
  · simp only [held_cons hnew]
    omega
  · intro r hr
    exact ⟨r, hr, .refl r⟩

/-- Passing a range by that ends before the fragment starts. -/
theorem Probed.past (h : Probed fl vm dataLen new cands p) (hc : c.Good) (hcn : c.rangeLast < new.rangeFirst)
    (hcc : ∀ r ∈ cands, c.rangeLast < r.rangeFirst) : Probed fl vm dataLen new (c :: cands) (p.past c) := by
  have hcount := h.count
  refine ⟨h.rc, ?_, ?_, ?_, ?_, ?_, ?_, ?_, ?_⟩
  · exact forall_mem_cons.mpr ⟨hc, h.good⟩
  · refine ordered_map_cons.mpr ⟨hc.nonempty, fun r hr => ?_, h.ordered⟩
    exact h.lower (c.rangeLast + 1) hcn hcc r hr
  · intro b hb hbc
    obtain ⟨hcb, hbc⟩ := forall_mem_cons.mp hbc
    exact forall_mem_cons.mpr ⟨hcb, h.lower b hb hbc⟩
  · intro q
    simp only [Probe.past, has_cons, h.has q, or_assoc]
  · simp only [Probe.past, held_cons hc]
    omega
  · intro r hr
    rcases mem_cons.mp hr with rfl | hr
    · exact ⟨r, by simp, .refl r⟩
    · obtain ⟨c', hc', hsame⟩ := h.origin r hr
      refine ⟨c', ?_, hsame⟩
      rcases mem_cons.mp hc' with rfl | hc'
      · exact mem_cons_self
      · exact mem_cons_of_mem _ (mem_cons_of_mem c hc')
  · obtain ⟨discarded, hsub, hvm, hperm⟩ := h.buffers
    refine ⟨discarded, subset_cons_of_subset c.bi hsub, hvm, ?_⟩
    have := hperm.cons c.bi
    simp only [Probe.past, map_cons, cons_append]
    exact this.trans (.swap new.bi c.bi _)
  · intro hno
    obtain ⟨hranges, hvm, hlen, r, hr, hpart⟩ := h.ignored hno
    exact ⟨by rw [Probe.past, hranges], hvm, hlen, r, mem_cons_of_mem c hr, hpart⟩

/-! ### Discarding and trimming -/

/-- A range that the fragment covers is discarded, and the fragment is put among the others. -/
theorem Put.discard (hput : Put fl (discardBuffers vm c.bi) (dataLen - c.dataLen) new cands p) (hc : c.Good)
    (hlen : c.dataLen ≤ dataLen) (hin : new.rangeFirst ≤ c.rangeFirst) (hlast : c.rangeLast ≤ fl) :
    Put fl vm dataLen new (c :: cands) p := by
  obtain ⟨h, hconsumed⟩ := hput
  have hcount := h.count
  refine ⟨⟨h.rc, h.good, h.ordered, fun b hb hbc => h.lower b hb fun c' hc' => hbc c' (mem_cons_of_mem c hc'),
    ?_, ?_, ?_, ?_, fun hno => absurd hno (by simp [hconsumed])⟩, hconsumed⟩
  · intro q
    rw [h.has q, has_cons]
    constructor
    · rintro (hq | hq)
      · exact .inl (.inr hq)
      · exact .inr hq
    · rintro ((hq | hq) | hq)
      · exact .inr ⟨by omega, by omega⟩
      · exact .inl hq
      · exact .inr hq
  · rw [held_cons hc]
    omega
  · intro r hr
    obtain ⟨c', hc', hsame⟩ := h.origin r hr
    refine ⟨c', ?_, hsame⟩
    rcases mem_cons.mp hc' with rfl | hc'
    · exact mem_cons_self
    · exact mem_cons_of_mem _ (mem_cons_of_mem c hc')
  · obtain ⟨discarded, hsub, hvm, hperm⟩ := h.buffers
    refine ⟨c.bi :: discarded, cons_subset_cons c.bi hsub, by rw [hvm, foldl_cons], ?_⟩
    rw [hconsumed, if_pos rfl, append_nil] at hperm ⊢
    rw [map_cons]
    exact perm_middle.trans ((hperm.cons c.bi).trans (.swap new.bi c.bi _))

/-- A range that sticks out of the fragment is trimmed, and the fragment is put among the others. -/
theorem Put.trim (hput : Put fl vm (dataLen - (fl - c.rangeFirst + 1)) new ({ c with rangeFirst := fl + 1 } :: cands) p)
    (hc : c.Good) (htrimmed : ({ c with rangeFirst := fl + 1 } : Range).Good) (hin : new.rangeFirst ≤ c.rangeFirst)
    (hle : c.rangeFirst ≤ fl) (hlen : c.dataLen ≤ dataLen) : Put fl vm dataLen new (c :: cands) p := by
  obtain ⟨h, hconsumed⟩ := hput
  have hcount := h.count
  have hdl := hc.dataLen
  have hdl' := htrimmed.dataLen
  have hlast : fl + 1 ≤ c.rangeLast := htrimmed.nonempty
  simp only [iv] at hdl hdl'
  refine ⟨⟨h.rc, h.good, h.ordered, ?_, ?_, ?_, ?_, h.buffers, fun hno =>
    absurd hno (by simp [hconsumed])⟩, hconsumed⟩
  · intro b hb hbc
    obtain ⟨hcb, hbc⟩ := forall_mem_cons.mp hbc
    exact h.lower b hb (forall_mem_cons.mpr ⟨le_trans hcb (Nat.le_succ_of_le hle), hbc⟩)
  · intro q
    rw [h.has q, has_cons, has_cons, or_right_comm, or_right_comm (b := Has cands q)]
    exact or_congr_left (by simp only; omega)
  · rw [held_cons htrimmed] at hcount
    rw [held_cons hc]
    omega
  · intro r hr
    obtain ⟨c', hc', hsame⟩ := h.origin r hr
    simp only [mem_cons] at hc'
    rcases hc' with rfl | rfl | hc'
    · exact ⟨c', mem_cons_self, hsame⟩
    · exact ⟨c, by simp, hsame⟩
    · exact ⟨c', by simp [hc'], hsame⟩

/-- The rest of the loop, where every range starts behind the start of the fragment. -/
theorem probe_inside (hin : Incoming ff fl new) (hgood : ∀ c ∈ cands, c.Good)
    (hord : Ordered (cands.map iv)) (hfirst : ∀ c ∈ cands, ff < c.rangeFirst)
    (hlo : ∀ c ∈ cands, new.rangeFirst ≤ c.rangeFirst) (hheld : held cands ≤ dataLen)
    (hlen : dataLen < 2 ^ 31) :
    Put fl vm dataLen new cands (if cands = [] then ip4FullReassInsertRangeInChain vm dataLen new []
      else probe ff fl cands vm dataLen new) := by
  induction cands generalizing vm dataLen with
  | nil => exact put_insert hin hgood hord (by simp) hlen
  | cons c rest ih =>
    obtain ⟨hc, hrest⟩ := forall_mem_cons.mp hgood
    obtain ⟨hcne, hbehind, hord'⟩ := ordered_map_cons.mp hord
    have hcf := hfirst c mem_cons_self
    have hcl := hlo c mem_cons_self
    have hfl := hin.good.lt
    rw [hin.last] at hfl
    rw [held_cons hc] at hheld
    have hcdl := hc.dataLen
    simp only [iv] at hcdl
    rw [if_neg (cons_ne_nil c rest), probe]
    simp only [if_neg (show ¬ ff > c.rangeLast by omega)]
    rcases lt_or_ge fl c.rangeFirst with hbefore | hover
    · -- the fragment ends before this range
      rw [if_pos hbefore]
      refine put_insert hin hgood hord (forall_mem_cons.mpr ⟨hbefore, fun r hr => ?_⟩) hlen
      have := hbehind r hr
      omega
    · rw [if_neg (by omega), if_neg (by omega), if_pos hcf]
      have hoverlap : (fl + 2 ^ 32 - c.rangeFirst + 1) % 2 ^ 32 = fl - c.rangeFirst + 1 := by omega
      rw [hoverlap]
      rcases lt_or_ge (fl - c.rangeFirst + 1) c.dataLen with htrim | hdisc
      · -- the range sticks out and is trimmed
        rw [if_pos htrim, if_neg (by omega)]
        have hmod : (c.rangeFirst + (fl - c.rangeFirst + 1)) % 2 ^ 16 = fl + 1 := by omega
        rw [hmod]
        have htrimmed : ({ c with rangeFirst := fl + 1 } : Range).Good :=
          ⟨by have := hc.first; simp only; omega, by simp only; omega, hc.last, hc.lt⟩
        refine Put.trim (put_insert hin (forall_mem_cons.mpr ⟨htrimmed, hrest⟩)
          (ordered_map_cons.mpr ⟨htrimmed.nonempty, hbehind, hord'⟩)
          (forall_mem_cons.mpr ⟨Nat.lt_succ_self fl, fun r hr => ?_⟩) (by omega)) hc htrimmed hcl
          (by omega) (by omega)
        have := hbehind r hr
        omega
      · -- the range is inside the fragment and is discarded
        rw [if_neg (by omega), if_neg (by simp [hc.sane])]
        have hsub : (dataLen + 2 ^ 32 - c.dataLen) % 2 ^ 32 = dataLen - c.dataLen := by omega
        rw [hsub]
        have hlo' : ∀ r ∈ rest, c.rangeFirst ≤ r.rangeFirst := fun r hr => by
          have := hbehind r hr
          omega
        exact (ih hrest hord' (fun r hr => lt_of_lt_of_le hcf (hlo' r hr)) (fun r hr => le_trans hcl (hlo' r hr))
          (by omega) (by omega)).discard hc (by omega) hcl (by omega)

/-! ### Up to the fragment -/

/-- A fragment that a range has the front of keeps only the rest of it. -/
theorem Probed.front {x : ℕ} (h : Probed fl vm dataLen { new with rangeFirst := x } cands p)
    (hle : new.rangeFirst ≤ x) (hcov : ∀ q, new.rangeFirst ≤ q → q < x → Has cands q)
    (hcon : p.consumed = true) :
    Probed fl vm dataLen new cands p := by
  refine ⟨h.rc, h.good, h.ordered, fun b hb hbc => h.lower b (le_trans hb hle) hbc, ?_, h.count, ?_, h.buffers,
    fun hno => absurd hno (by simp [hcon])⟩
  · intro q
    rw [h.has q]
    constructor
    · rintro (hq | ⟨hq, hql⟩)
      · exact .inl hq
      · exact .inr ⟨le_trans hle hq, hql⟩
    · rintro (hq | ⟨hq, hql⟩)
      · exact .inl hq
      · rcases lt_or_ge q x with hx | hx
        · exact .inl (hcov q hq hx)
        · exact .inr ⟨hx, hql⟩
  · intro r hr
    obtain ⟨c, hc, hsame⟩ := h.origin r hr
    rcases mem_cons.mp hc with rfl | hc
    · exact ⟨new, mem_cons_self, hsame⟩
    · exact ⟨c, mem_cons_of_mem new hc, hsame⟩

/-- The loop of `ip4_full_reass_update`, from the first range on. -/
theorem probe_spec (hin : Incoming ff fl new) (hff : new.rangeFirst = ff) (hgood : ∀ c ∈ cands, c.Good)
    (hord : Ordered (cands.map iv)) (hne : cands ≠ []) (hheld : held cands ≤ dataLen) (hlen : dataLen < 2 ^ 31) :
    Probed fl vm dataLen new cands (probe ff fl cands vm dataLen new) := by
  induction cands generalizing vm dataLen with
  | nil => exact absurd rfl hne
  | cons c rest ih =>
    obtain ⟨hc, hrest⟩ := forall_mem_cons.mp hgood
    obtain ⟨hcne, hbehind, hord'⟩ := ordered_map_cons.mp hord
    have hnew := hin.good
    have hffl : ff ≤ fl := by
      have := hnew.nonempty
      rwa [hff, hin.last] at this
    have hfl := hnew.lt
    rw [hin.last] at hfl
    have hheld' := hheld
    rw [held_cons hc] at hheld'
    have hcdl := hc.dataLen
    simp only [iv] at hcdl
    rcases lt_or_ge ff c.rangeFirst with hinside | hstart
    · -- from here on every range starts behind the fragment's start
      have hall : ∀ r ∈ c :: rest, ff < r.rangeFirst := by
        refine forall_mem_cons.mpr ⟨hinside, fun r hr => ?_⟩
        have := hbehind r hr
        omega
      have hput : Put fl vm _ _ _ _ := probe_inside hin hgood hord hall (fun r hr => hff ▸ (hall r hr).le) hheld hlen
      rw [if_neg hne] at hput
      exact hput.probed
    · rw [probe]
      rcases lt_or_ge c.rangeLast ff with hpast | hreach
      · -- the fragment starts after this range
        rw [if_pos hpast]
        have hcn : c.rangeLast < new.rangeFirst := by omega
        rcases eq_or_ne rest [] with hnil | hcons
        · rw [if_pos ⟨by omega, hnil⟩, hnil]
          exact (put_insert hin (by simp) ⟨by simp, by simp⟩ (by simp) hlen).probed.past hc hcn (by simp)
        · rw [if_neg (by simp [hcons])]
          exact (ih hrest hord' hcons (by omega) hlen).past hc hcn hbehind
      · rw [if_neg (by omega), if_neg (by omega)]
        rcases lt_or_ge c.rangeLast fl with hlonger | hpart
        · rw [if_neg (by omega), if_neg (by omega), if_pos hlonger]
          have hoverlap : (c.rangeLast + 2 ^ 32 - ff + 1) % 2 ^ 32 = c.rangeLast - ff + 1 := by omega
          rw [hoverlap]
          have hlo' : ∀ r ∈ rest, ff < r.rangeFirst := fun r hr => lt_of_le_of_lt hreach (hbehind r hr)
          rcases lt_or_ge (c.rangeLast - ff + 1) c.dataLen with hfront | hcover
          · -- this range has the front of the fragment
            rw [if_pos hfront]
            have hmod : (new.rangeFirst + (c.rangeLast - ff + 1)) % 2 ^ 16 = c.rangeLast + 1 := by omega
            rw [hmod]
            have hin' : Incoming ff fl { new with rangeFirst := c.rangeLast + 1 } :=
              ⟨⟨by have := hin.first; simp only; omega, by simp only [hin.last]; omega, hnew.last,
                hnew.lt⟩, hin.first,
                hin.last⟩
            have hcov : ∀ q, new.rangeFirst ≤ q → q < c.rangeLast + 1 → Has (c :: rest) q := fun q hq hql =>
              (has_cons q).mpr (.inl ⟨by omega, by omega⟩)
            have hput : Put fl vm dataLen _ _ _ := probe_inside hin' hrest hord' hlo' hbehind (by omega) hlen
            dsimp only
            rw [← apply_ite (Probe.past c)]
            exact (hput.probed.past hc (Nat.lt_succ_self _) hbehind).front (by omega) hcov hput.consumed
          · -- the fragment covers this range
            rw [if_neg (by omega), if_neg (by simp [hc.sane])]
            have hsub : (dataLen + 2 ^ 32 - c.dataLen) % 2 ^ 32 = dataLen - c.dataLen := by omega
            rw [hsub]
            have hput : Put fl (discardBuffers vm c.bi) (dataLen - c.dataLen) _ _ _ :=
              probe_inside hin hrest hord' hlo' (fun r hr => hff ▸ (hlo' r hr).le) (by omega) (by omega)
            exact (hput.discard hc (by omega) (by omega) hlonger.le).probed
        · -- the fragment is a part of this range
          rw [if_pos ⟨hstart, hpart⟩]
          refine ⟨rfl, hgood, hord, fun b _ hbc => hbc, ?_, rfl, fun r hr => ⟨r, by simp [mem_cons.mp hr], ?_⟩,
            ⟨[], by simp, rfl, ?_⟩, fun _ => ⟨rfl, rfl, rfl, c, mem_cons_self, by omega, hpart⟩⟩
          · intro q
            rw [has_cons, hff]
            constructor
            · exact .inl
            · rintro (hq | ⟨hq, hql⟩)
              · exact hq
              · exact .inl ⟨by omega, by omega⟩
          · exact .refl r
          · rw [if_neg (by simp), append_nil]
            exact perm_append_singleton new.bi _

end Vpp.Ip
