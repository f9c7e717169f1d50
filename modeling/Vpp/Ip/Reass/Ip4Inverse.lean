import Vpp.Ip.Reass.Ip4Genuine

/-! IPv4 reassembly inverts fragmentation.

    A datagram is cut into pieces, and each piece is sent in a packet with a header of its own; some are
    sent more than once. In whatever order they come, the context is complete when the last missing piece
    is there, and then the datagram is emitted behind the header of its first piece.

        datagram   [ 0 ........ 15][16 ..... 39][40 ... 50]
        comes      [16 .. 39] [40 .. 50] [16 .. 39] [0 .. 15]
                                                        ^ complete

    The header with its options and the datagram must not be longer than a packet can be: the check on the
    bounds of a fragment takes the header to have 20 bytes. -/

namespace Vpp.Ip
open Vpp.Schemes Vpp.Vlib List
open Range (iv)

/-! ### What is sent -/

/-- A piece of a datagram: the header of its packet, and its octets from `lo` on, below `hi`. -/
structure Piece where
  header : Bytes
  lo : ℕ
  hi : ℕ
deriving DecidableEq

namespace Piece

def iv (p : Piece) : Iv := ⟨p.lo, p.hi⟩

def octets (text : Bytes) (p : Piece) : Bytes := (text.drop p.lo).take (p.hi - p.lo)

end Piece

variable {vm₀ vm : Vm} {text : Bytes} {p : Piece} {pieces : List Piece} {as : List (Arrival × Piece)} {bi : ℕ}
  {reass : Ip4FullReass} {maxReassLen thread now : ℕ}

/-- The datagram is cut into two or more pieces. -/
@[mk_iff]
structure Cut (text : Bytes) (pieces : List Piece) : Prop where
  two : 2 ≤ pieces.length
  tiles : Tiles 0 (pieces.map Piece.iv) text.length
  nonempty : ∀ p ∈ pieces, p.lo < p.hi
  units : ∀ p ∈ pieces, p.hi ≠ text.length → 8 ∣ p.hi - p.lo
  short : text.length ≤ 65515

instance (text : Bytes) (pieces : List Piece) : Decidable (Cut text pieces) :=
  decidable_of_iff' _ (cut_iff text pieces)

/-- The packet at `bi` is that of a piece of the datagram: the header, the octets of the piece, and perhaps more
    bytes that the header does not count. -/
@[mk_iff]
structure Holds (vm₀ : Vm) (text : Bytes) (p : Piece) (bi : ℕ) : Prop where
  packet : Packet vm₀ bi (vm₀.chain bi)
  headerBytes : ip4HeaderBytes (vm₀.buffer bi) = p.header.length
  length : ip4Length (vm₀.buffer bi) = p.header.length + (p.hi - p.lo)
  offset : 8 * ip4GetFragmentOffset (vm₀.buffer bi) = p.lo
  more : ip4GetFragmentMore (vm₀.buffer bi) = decide (p.hi ≠ text.length)
  contents : p.header ++ p.octets text <+: vm₀.contents (vm₀.chain bi)

instance (vm₀ : Vm) (text : Bytes) (p : Piece) (bi : ℕ) : Decidable (Holds vm₀ text p bi) :=
  decidable_of_iff' _ (holds_iff vm₀ text p bi)

/-- The header `hdr'` is `hdr` but for the length, the flags with the offset, and the checksum. -/
structure Corrected (hdr : Bytes) (length : ℕ) (hdr' : Bytes) : Prop where
  length_eq : hdr'.length = hdr.length
  total : ofBe ((hdr'.drop 2).take 2) = length
  flags : (hdr'.drop 6).take 2 = [0, 0]
  other : ∀ k, k ∉ [2, 3, 6, 7, 10, 11] → hdr'[k]? = hdr[k]?

theorem corrected_emittedHeader {hdr : Bytes} {length : ℕ} (h20 : 20 ≤ hdr.length) (hlen : length < 2 ^ 16) :
    Corrected hdr length (emittedHeader hdr length) := by
  have hl1 : (writeAt hdr 6 (toBe 2 0)).length = hdr.length := length_writeAt (by rw [length_toBe]; omega)
  have hl2 : (writeAt (writeAt hdr 6 (toBe 2 0)) 2 (toBe 2 length)).length = hdr.length := by
    rw [length_writeAt (by rw [length_toBe, hl1]; omega), hl1]
  have hck (n : ℕ) : (toBe 2 n).reverse.length = 2 := by rw [length_reverse, length_toBe]
  refine ⟨length_emittedHeader h20 length, ?_, ?_, fun k hk => ?_⟩
  · have htot := take_drop_writeAt
      (show 2 + (toBe 2 length).length ≤ (writeAt hdr 6 (toBe 2 0)).length by rw [length_toBe, hl1]; omega)
    rw [length_toBe] at htot
    rw [emittedHeader, take_drop_writeAt_of_disjoint (by rw [hck, hl2]; omega) (.inl (by decide)), htot,
      ofBe_toBe (by omega)]
  · have hflags := take_drop_writeAt (show 6 + (toBe 2 0).length ≤ hdr.length by rw [length_toBe]; omega)
    rw [length_toBe] at hflags
    rw [emittedHeader, take_drop_writeAt_of_disjoint (by rw [hck, hl2]; omega) (.inl (by decide)),
      take_drop_writeAt_of_disjoint (by rw [length_toBe, hl1]; omega) (.inr (by rw [length_toBe]; decide)), hflags]
    decide
  · simp only [mem_cons, not_mem_nil, or_false, not_or] at hk
    rw [emittedHeader, getElem?_writeAt_of_not_mem (by rw [hck, hl2]; omega) (by rw [hck]; omega),
      getElem?_writeAt_of_not_mem (by rw [length_toBe, hl1]; omega) (by rw [length_toBe]; omega),
      getElem?_writeAt_of_not_mem (by rw [length_toBe]; omega) (by rw [length_toBe]; omega)]

/-! ### The pieces -/

namespace Cut

section
variable (h : Cut text pieces)
include h

theorem ordered : Ordered (pieces.map Piece.iv) :=
  h.tiles.ordered (forall_mem_map.mpr h.nonempty)

theorem le {p : Piece} (hp : p ∈ pieces) : p.hi ≤ text.length :=
  (h.tiles.bounds (forall_mem_map.mpr fun q hq => le_of_lt (h.nonempty q hq)) p.iv
    (mem_map_of_mem hp)).2

/-- Each octet is in one piece only. -/
theorem eq_of_has {p p' : Piece} {q : ℕ} (hp : p ∈ pieces) (hp' : p' ∈ pieces)
    (hq : p.iv.Has q) (hq' : p'.iv.Has q) : p = p' := by
  by_contra hne
  have hdis : pieces.Pairwise fun x y => x.hi ≤ y.lo := pairwise_map.mp h.ordered.disjoint
  have : Std.Symm fun x y : Piece => x.hi ≤ y.lo ∨ y.hi ≤ x.lo := ⟨fun _ _ hxy => hxy.symm⟩
  have hor := (hdis.imp fun hxy => .inl hxy : pieces.Pairwise fun x y => x.hi ≤ y.lo ∨
    y.hi ≤ x.lo).forall hp hp' hne
  simp only [Iv.Has, Piece.iv] at hq hq'
  omega

/-- No piece is the only one. -/
theorem exists_ne (p : Piece) : ∃ p' ∈ pieces, p' ≠ p := by
  by_contra! hall
  have htwo := h.two
  match pieces, htwo with
  | x :: y :: rest, _ =>
    have hx := hall x (by simp)
    have hy := hall y (by simp)
    have hord := ordered_cons.mp h.ordered
    have := hord.2.1 y.iv (by simp)
    rw [hx] at *
    rw [hy] at *
    omega

/-- No piece is the whole datagram. -/
theorem ne_whole {p : Piece} (hp : p ∈ pieces) : p.lo ≠ 0 ∨ p.hi ≠ text.length := by
  by_contra! hwhole
  obtain ⟨p', hp', hne⟩ := h.exists_ne p
  have hlt := h.nonempty p' hp'
  have hle := h.le hp'
  refine hne (h.eq_of_has hp' hp (q := p'.lo) ⟨le_refl _, hlt⟩ ⟨?_, ?_⟩) <;> simp only [Piece.iv] <;> omega

end

end Cut

/-! ### A packet with a piece -/

theorem length_octets (hcut : Cut text pieces) (hp : p ∈ pieces) : (p.octets text).length = p.hi - p.lo := by
  have hle := hcut.le hp
  rw [Piece.octets, length_take, length_drop]
  omega

namespace Holds

section

variable (h : Holds vm₀ text p bi)
include h

section

variable (hcut : Cut text pieces)
include hcut

section
variable (hp : p ∈ pieces)
include hp

/-- The bounds of the fragment are those of the piece. -/
theorem bounds :
    fragmentFirst (vm₀.buffer bi) = p.lo ∧ fragmentLength (vm₀.buffer bi) = p.hi - p.lo ∧
      fragmentLast (vm₀.buffer bi) + 1 = p.hi := by
  have hlt := hcut.nonempty p hp
  have hle := hcut.le hp
  have hshort := hcut.short
  have h1 : fragmentFirst (vm₀.buffer bi) = p.lo := h.offset
  have h2 : fragmentLength (vm₀.buffer bi) = p.hi - p.lo := by
    rw [fragmentLength, h.length, h.headerBytes]
    omega
  refine ⟨h1, h2, ?_⟩
  rw [fragmentLast, h1, h2]
  omega

/-- The fragment passes the checks. -/
theorem accepted : Accepted (vm₀.buffer bi) := by
  have hlt := hcut.nonempty p hp
  have hle := hcut.le hp
  have hshort := hcut.short
  obtain ⟨h1, h2, h3⟩ := h.bounds hcut hp
  constructor
  · rw [isWholePacket, h.more]
    rcases hcut.ne_whole hp with hlo | hhi
    · have hoff : ip4GetFragmentOffset (vm₀.buffer bi) ≠ 0 := by
        have := h.offset
        omega
      simp [hoff]
    · simp [hhi]
  · have hmin : p.hi ≠ text.length → 8 ≤ p.hi - p.lo := fun hne =>
      Nat.le_of_dvd (by omega) (hcut.units p hp hne)
    rw [isMalformed, h1, h2, h.more]
    simp only [Bool.or_eq_false_iff, decide_eq_false_iff_not, Bool.and_eq_false_imp, decide_eq_true_eq]
    exact ⟨⟨by omega, by omega⟩, fun hshortp hne => by have := hmin hne; omega⟩

theorem carries {q : ℕ} :
    Carries vm₀ bi q ↔ p.iv.Has q := by
  obtain ⟨h1, -, h3⟩ := h.bounds hcut hp
  simp only [Carries, Iv.Has, Piece.iv]
  omega

/-- The octets of the piece are at their place behind the header. -/
theorem getElem?_payload {q : ℕ} (hq : p.iv.Has q) : (payload vm₀ bi)[q - p.lo]? = text[q]? := by
  obtain ⟨trailing, hc⟩ := h.contents
  have hlen := length_octets hcut hp
  simp only [Iv.Has, Piece.iv] at hq
  rw [payload, ← hc, h.headerBytes, append_assoc, drop_left' rfl, getElem?_append_left (by omega),
    Piece.octets, getElem?_take_of_lt (by omega), getElem?_drop]
  congr 1
  omega

end

end

end

end Holds

/-- The packets that come are those of pieces, and apart from each other. -/
@[mk_iff]
structure Sent (vm₀ : Vm) (text : Bytes) (pieces : List Piece) (as : List (Arrival × Piece)) : Prop where
  piece : ∀ a ∈ as, a.2 ∈ pieces
  holds : ∀ a ∈ as, Holds vm₀ text a.2 a.1.bi
  sound : ∀ a ∈ as, Sound vm₀ a.1.bi
  nodup : ((as.map fun a => a.1.bi).flatMap vm₀.chain).Nodup

instance (vm₀ : Vm) (text : Bytes) (pieces : List Piece) (as : List (Arrival × Piece)) :
    Decidable (Sent vm₀ text pieces as) :=
  decidable_of_iff' _ (sent_iff vm₀ text pieces as)

/-- No piece is missing. -/
def AllCame (pieces : List Piece) (as : List (Arrival × Piece)) : Prop := ∀ p ∈ pieces, p ∈ as.map Prod.snd
deriving Decidable

namespace Sent

theorem arriving (h : Sent vm₀ text pieces as) (hcut : Cut text pieces) : Arriving vm₀
    (as.map fun a => a.1.bi) := by
  refine ⟨?_, ?_, ?_, h.nodup⟩ <;> rw [forall_mem_map] <;> intro a ha
  · exact (h.holds a ha).accepted hcut (h.piece a ha)
  · rw [(h.holds a ha).length, (h.holds a ha).headerBytes]
    exact Nat.le_add_right _ _
  · exact (h.holds a ha).packet

theorem of_append {more : List (Arrival × Piece)} (h : Sent vm₀ text pieces (as ++ more)) :
    Sent vm₀ text pieces as where
  piece a ha := h.piece a (mem_append_left more ha)
  holds a ha := h.holds a (mem_append_left more ha)
  sound a ha := h.sound a (mem_append_left more ha)
  nodup := by
    have := h.nodup
    rw [map_append, flatMap_append] at this
    exact (nodup_append.mp this).1

/-- What the packets carry are the pieces that came. -/
theorem carried (h : Sent vm₀ text pieces as) (hcut : Cut text pieces) {q : ℕ} :
    (∃ bi ∈ as.map (fun a => a.1.bi), Carries vm₀ bi q) ↔ ∃ a ∈ as, a.2.iv.Has q := by
  constructor
  · rintro ⟨bi, hbi, hq⟩
    obtain ⟨a, ha, rfl⟩ := mem_map.mp hbi
    exact ⟨a, ha, ((h.holds a ha).carries hcut (h.piece a ha)).mp hq⟩
  · rintro ⟨a, ha, hq⟩
    exact ⟨a.1.bi, mem_map_of_mem ha, ((h.holds a ha).carries hcut (h.piece a ha)).mpr hq⟩

/-- The end announced is that of the datagram, by each packet that announces one. -/
theorem ends (h : Sent vm₀ text pieces as) (hcut : Cut text pieces) :
    ∀ bi ∈ as.map (fun a => a.1.bi), ip4GetFragmentMore (vm₀.buffer bi) = false →
      fragmentLast (vm₀.buffer bi) + 1 = text.length := by
  rw [forall_mem_map]
  intro a ha hmore
  rw [(h.holds a ha).more] at hmore
  rw [((h.holds a ha).bounds hcut (h.piece a ha)).2.2]
  simpa using hmore

end Sent

/-! ### When the context is complete -/

/-- Where all fragments that announce an end announce the same one, it is known as soon as there is one. -/
theorem lastOctet_eq_of_forall {got : List ℕ} {e : ℕ}
    (h : ∀ bi ∈ got, ip4GetFragmentMore (vm₀.buffer bi) = false → fragmentLast (vm₀.buffer bi) = e)
    (hex : ∃ bi ∈ got, ip4GetFragmentMore (vm₀.buffer bi) = false) : lastOctet vm₀ got = e := by
  induction got using reverseRecOn with
  | nil =>
    obtain ⟨bi, hbi, -⟩ := hex
    cases hbi
  | append_singleton got b ih =>
    rw [lastOctet_append]
    cases hmore : ip4GetFragmentMore (vm₀.buffer b) with
    | false =>
      rw [if_neg Bool.false_ne_true]
      exact h b (by simp) hmore
    | true =>
      rw [if_pos rfl]
      refine ih (fun bi hbi => h bi (mem_append_left _ hbi)) ?_
      obtain ⟨bi, hbi, hm⟩ := hex
      rcases mem_append.mp hbi with hbi | hbi
      · exact ⟨bi, hbi, hm⟩
      · obtain rfl : bi = b := by simpa using hbi
        rw [hm] at hmore
        cases hmore

section
variable (h : Reassembling vm₀ (as.map fun a => a.1.bi) vm reass) (hsent : Sent vm₀ text pieces as)
  (hcut : Cut text pieces)
include h hsent hcut

/-- A range is of a piece. -/
theorem exists_piece {r : Range} (hr : r ∈ reass.ranges) :
    r.bi ∈ as.map (fun a => a.1.bi) ∧ ∃ p ∈ pieces, Holds vm₀ text p r.bi ∧ r.fragmentFirst = p.lo ∧
    r.fragmentLast + 1 = p.hi := by
  obtain ⟨hbi, hfirst, hlast⟩ := h.origin r hr
  obtain ⟨a, ha, hab⟩ := mem_map.mp hbi
  have hholds := hsent.holds a ha
  rw [hab] at hholds
  obtain ⟨h1, -, h3⟩ := hholds.bounds hcut (hsent.piece a ha)
  exact ⟨hbi, a.2, hsent.piece a ha, hholds, hfirst.trans h1, by rw [hlast, h3]⟩

/-- The ranges lie in the datagram. -/
theorem iv_le : ∀ x ∈ reass.ranges.map iv, x.hi ≤ text.length := by
  rw [forall_mem_map]
  intro r hr
  obtain ⟨-, p, hp, -, -, hlast⟩ := exists_piece h hsent hcut hr
  have hle := hcut.le hp
  simp only [iv, (h.good r hr).last]
  omega

/-- When all pieces have come, the ranges leave no gap. -/
theorem tiles_of_allCame (hall : AllCame pieces as) : Tiles 0 (reass.ranges.map iv) text.length := by
  refine h.ordered.tiles_of_covers (Nat.zero_le _) (fun _ _ => Nat.zero_le _) (iv_le h hsent hcut) fun q _ hq => ?_
  obtain ⟨x, hx, hxq⟩ := hcut.tiles.covers (Nat.zero_le q) hq
  obtain ⟨p, hp, rfl⟩ := mem_map.mp hx
  obtain ⟨a, ha, rfl⟩ := mem_map.mp (hall p hp)
  obtain ⟨r, hr, hrq⟩ := (h.has q).mpr ((hsent.carried hcut).mpr ⟨a, ha, hxq⟩)
  exact ⟨r.iv, mem_map_of_mem hr, hrq⟩

/-- The check for completeness finds out whether all pieces have come. -/
theorem complete_iff_allCame : (reass.lastPacketOctet ≠ noOctet ∧
    reass.dataLen = (reass.lastPacketOctet + 1) % 2 ^ 32) ↔ AllCame pieces as := by
  have hshort := hcut.short
  have hmeasure : reass.dataLen = measure (reass.ranges.map iv) := h.dataLen
  constructor
  · rintro ⟨hoct, hcount⟩
    rw [h.last] at hoct hcount
    obtain ⟨bi, hbi, hmore, heq⟩ := (lastOctet_eq vm₀ _).resolve_left hoct
    have hend := hsent.ends hcut bi hbi hmore
    have htiles : Tiles 0 (reass.ranges.map iv) text.length :=
      h.ordered.tiles (Nat.zero_le _) (fun _ _ => Nat.zero_le _) (iv_le h hsent hcut) (by omega)
    intro p hp
    have hlt := hcut.nonempty p hp
    have hle := hcut.le hp
    -- the first octet of the piece is held, so the piece has come
    obtain ⟨x, hx, hxq⟩ := htiles.covers (Nat.zero_le p.lo) (by omega)
    obtain ⟨r, hr, rfl⟩ := mem_map.mp hx
    obtain ⟨a, ha, haq⟩ := (hsent.carried hcut).mp ((h.has p.lo).mp ⟨r, hr, hxq⟩)
    rw [hcut.eq_of_has hp (hsent.piece a ha) ⟨le_refl _, hlt⟩ haq]
    exact mem_map_of_mem ha
  · intro hall
    have htiles := tiles_of_allCame h hsent hcut hall
    obtain ⟨-, hm⟩ := htiles.measure_eq fun x hx => le_of_lt (h.ordered.nonempty x hx)
    have hpos : 0 < text.length := by
      obtain ⟨p, hp⟩ := exists_mem_of_length_pos (show 0 < pieces.length by have := hcut.two; omega)
      have := hcut.nonempty p hp
      have := hcut.le hp
      omega
    obtain ⟨x, hx, hxq⟩ := hcut.tiles.covers (Nat.zero_le (text.length - 1)) (by omega)
    obtain ⟨p, hp, rfl⟩ := mem_map.mp hx
    obtain ⟨a, ha, rfl⟩ := mem_map.mp (hall p hp)
    have hle := hcut.le hp
    have hhi : a.2.hi = text.length := by
      simp only [Iv.Has, Piece.iv] at hxq
      omega
    have hlast : lastOctet vm₀ (as.map fun a => a.1.bi) = text.length - 1 := by
      refine lastOctet_eq_of_forall (fun bi hbi hm => ?_) ⟨a.1.bi, mem_map_of_mem ha, ?_⟩
      · have := hsent.ends hcut bi hbi hm
        omega
      · rw [(hsent.holds a ha).more, hhi]
        simp
    rw [h.last, hlast, hmeasure, hm]
    refine ⟨?_, by omega⟩
    rw [noOctet]
    omega

/-- The packets hold the ranges. -/
theorem fits_of_sent : ∀ r ∈ reass.ranges, Fits vm r := by
  intro r hr
  have ha := hsent.arriving hcut
  obtain ⟨hbi, p, hp, hholds, h1, h3⟩ := exists_piece h hsent hcut hr
  obtain ⟨trailing, hc⟩ := hholds.contents
  have hgood := h.good r hr
  have hg1 := hgood.first
  have hg2 := hgood.nonempty
  have hg3 := hgood.last
  have hcv : vm.contents (vm.chain r.bi) = vm₀.contents (vm₀.chain r.bi) := by
    rw [(h.packet ha hr).chain_eq]
    exact contents_congr (h.kept r hr)
  rw [Fits, hcv, ← hc, h.kept r hr r.bi (ha.packet _ hbi).head_mem, hholds.headerBytes,
    hgood.dataOffset, hgood.dataLen,
    length_append, length_append, length_octets hcut hp]
  simp only [iv]
  omega

/-- The octets of the ranges are the datagram. -/
theorem body_eq_text (htiles : Tiles 0 (reass.ranges.map iv) text.length) : body vm reass.ranges = text := by
  have ha := hsent.arriving hcut
  obtain ⟨hlen, hbody⟩ := getElem?_body h.good (fits_of_sent h hsent hcut) htiles
  refine ext_getElem? fun q => ?_
  rcases lt_or_ge q text.length with hq | hq
  · obtain ⟨r, hr, hhas, hget⟩ := hbody q (by omega)
    obtain ⟨hbi, p, hp, hholds, h1, h3⟩ := exists_piece h hsent hcut hr
    have hgood := h.good r hr
    have hg1 := hgood.first
    have hg3 := hgood.last
    rw [zero_add] at hhas hget
    rw [hget, payload_congr (ha.packet _ hbi) (h.packet ha hr) (h.kept r hr), h1]
    refine hholds.getElem?_payload hcut hp ?_
    simp only [Iv.Has, iv, Piece.iv] at hhas ⊢
    omega
  · rw [getElem?_eq_none (by omega), getElem?_eq_none hq]

/-- The packet emitted: the header of the first piece, corrected, and the datagram. -/
theorem finalize_of_allCame (hsize : 0 < vm₀.dataSize ∧ vm₀.dataSize + 128 < 2 ^ 16) (hall : AllCame pieces as) :
    ∃ p ∈ pieces, p.lo = 0 ∧ 20 ≤ p.header.length ∧ ∃ vm' first out,
      ip4FullReassFinalize vm reass.ranges = some (.ok, vm') ∧ reass.ranges.head?.map Range.bi = some first ∧
      Packet vm' first out ∧
      vm'.contents out = emittedHeader p.header (p.header.length + text.length) ++ text := by
  have ha := hsent.arriving hcut
  have hshort := hcut.short
  have hsound : ∀ bi ∈ as.map (fun a => a.1.bi), Sound vm₀ bi := forall_mem_map.mpr hsent.sound
  have htiles := tiles_of_allCame h hsent hcut hall
  have hbody := body_eq_text h hsent hcut htiles
  have hne : reass.ranges ≠ [] := by
    refine h.ranges_ne_nil ha ?_
    rintro hnil
    obtain rfl : as = [] := by simpa using hnil
    obtain ⟨p, hp⟩ := exists_mem_of_length_pos (show 0 < pieces.length by have := hcut.two; omega)
    have := hall p hp
    cases this
  obtain ⟨first, rest, hr⟩ := exists_cons_of_ne_nil hne
  obtain ⟨vm', out, hfin, hF⟩ := h.finalize ha hsound hsize (show text.length < 2 ^ 16 by omega) hr htiles
    (fits_of_sent h hsent hcut)
  have hmem : first ∈ reass.ranges := by rw [hr]; exact mem_cons_self
  obtain ⟨hbi, p, hp, hholds, h1, -⟩ := exists_piece h hsent hcut hmem
  obtain ⟨trailing, hc⟩ := hholds.contents
  have hbuf := h.kept first hmem first.bi (ha.packet _ hbi).head_mem
  have hlo : p.lo = 0 := by
    rw [hr] at htiles
    have hzero : first.rangeFirst = 0 := htiles.1
    have := (h.good first hmem).first
    omega
  have hcv : vm.contents (vm.chain first.bi) = vm₀.contents (vm₀.chain first.bi) := by
    rw [(h.packet ha hmem).chain_eq]
    exact contents_congr (h.kept first hmem)
  have h20 := (hsound _ hbi).header.min
  rw [hholds.headerBytes] at h20
  refine ⟨p, hp, hlo, h20, vm', first.bi, out, hfin, by rw [hr]; rfl, hF.packet, ?_⟩
  rw [hF.contents, ← hr, hbody, hcv, ← hc, hbuf, hholds.headerBytes, append_assoc, take_left' rfl]

end

/-! ### Runs -/

/-- A fragment after which no piece is missing, or not: what an update comes to. -/
structure Answer (vm₀ : Vm) (text : Bytes) (pieces : List Piece) (as : List (Arrival × Piece))
    (u : Updated) : Prop where
  completed : u.completed = true ↔ AllCame pieces as
  stored : u.completed = false → u.rc = .ok ∧ Reassembling vm₀ (as.map fun a => a.1.bi) u.vm u.reass
  emitted : u.completed = true → ∃ p ∈ pieces, p.lo = 0 ∧ 20 ≤ p.header.length ∧
    ∃ first out, u.bi = some first ∧
    Packet u.vm first out ∧ u.vm.contents out = emittedHeader p.header (p.header.length + text.length) ++ text

/-- The context goes on while a piece is missing, and is complete as soon as none is. -/
theorem receive_piece (thread : ℕ) (h : Reassembling vm₀ (as.map fun a => a.1.bi) vm reass) (a : Arrival × Piece)
    (hsent : Sent vm₀ text pieces (as ++ [a])) (hcut : Cut text pieces)
    (hsize : 0 < vm₀.dataSize ∧ vm₀.dataSize + 128 < 2 ^ 16) (hmax : as.length + 1 ≤ maxReassLen) :
    ∃ u, ip4FullReassReceive maxReassLen thread a.1.now a.1.custom vm reass a.1.bi = some u ∧
      Answer vm₀ text pieces (as ++ [a]) u := by
  have harr : Arriving vm₀ ((as.map fun a => a.1.bi) ++ [a.1.bi]) := by simpa using hsent.arriving hcut
  have hmap : (as ++ [a]).map (fun a => a.1.bi) = as.map (fun a => a.1.bi) ++ [a.1.bi] := by simp
  rw [ip4FullReassReceive]
  have h := h.touch a.1.now (if fragmentFirst (vm.buffer a.1.bi) = 0 then thread else reass.sendoutThreadIndex)
  rcases eq_or_ne as [] with rfl | hne
  · -- the first fragment is stored, and it is not the only piece
    obtain ⟨reass', hupd, hstate⟩ := update_first maxReassLen a.1.custom h harr
    refine ⟨_, hupd, ⟨fun hc => absurd hc Bool.false_ne_true, fun hall => ?_⟩, fun _ => ⟨rfl, hstate⟩,
      fun hc => absurd hc Bool.false_ne_true⟩
    obtain ⟨p, hp, hother⟩ := hcut.exists_ne a.2
    exact absurd (by simpa using hall p hp) hother
  · obtain ⟨reass', p, hupd, hstate⟩ := update_next maxReassLen a.1.custom h (by simpa using hne) harr
    rw [← hmap] at hstate
    have hiff := complete_iff_allCame hstate hsent hcut
    have hcount := hstate.fragmentsN
    simp only [length_map, length_append, length_singleton] at hcount
    rw [hupd, checkComplete]
    by_cases hall : AllCame pieces (as ++ [a])
    · obtain ⟨q, hq, hlo, h20, vm', first, out, hfin, hfirst, hpk, hc⟩ :=
        finalize_of_allCame hstate hsent hcut hsize hall
      simp only [if_pos (hiff.mpr hall), hfin]
      exact ⟨_, rfl, ⟨fun _ => hall, fun _ => rfl⟩, fun hc => absurd hc (by simp),
        fun _ => ⟨q, hq, hlo, h20, first, out, hfirst, hpk, hc⟩⟩
    · simp only [if_neg (mt hiff.mp hall)]
      cases p.consumed with
      | true =>
        have hfew : ¬ reass'.fragmentsN > maxReassLen := by omega
        simp only [if_true, if_neg hfew]
        exact ⟨_, rfl, ⟨fun hc => absurd hc (by simp), fun hc => absurd hc hall⟩, fun _ => ⟨rfl, hstate⟩,
          fun hc => absurd hc (by simp)⟩
      | false =>
        simp only [Bool.false_eq_true, if_false]
        exact ⟨_, rfl, ⟨fun hc => absurd hc (by simp), fun hc => absurd hc hall⟩, fun _ => ⟨rfl, hstate⟩,
          fun hc => absurd hc (by simp)⟩

/-- A whole run: while a piece is missing before the last fragment, each fragment is stored or ignored. -/
theorem run_pieces (maxReassLen thread : ℕ) {done : List (Arrival × Piece)}
    (h : Reassembling vm₀ (done.map fun a => a.1.bi) vm reass)
    (hne : as ≠ []) (hsent : Sent vm₀ text pieces (done ++ as)) (hcut : Cut text pieces)
    (hsize : 0 < vm₀.dataSize ∧ vm₀.dataSize + 128 < 2 ^ 16) (hmax : (done ++ as).length ≤ maxReassLen)
    (hmissing : ¬ AllCame pieces (done ++ as.dropLast)) :
    ∃ u, ip4FullReassRun maxReassLen thread vm reass (as.map Prod.fst) = some u ∧
      Answer vm₀ text pieces (done ++ as) u := by
  induction as generalizing done vm reass with
  | nil => exact absurd rfl hne
  | cons a as ih =>
    have hsent₁ : Sent vm₀ text pieces (done ++ [a]) := by
      have hassoc : done ++ a :: as = (done ++ [a]) ++ as := by simp
      rw [hassoc] at hsent
      exact hsent.of_append
    have hmax₁ : done.length + 1 ≤ maxReassLen := by
      rw [length_append, length_cons] at hmax
      omega
    obtain ⟨u, hu, hans⟩ := receive_piece thread h a hsent₁ hcut hsize hmax₁
    cases as with
    | nil => exact ⟨u, hu, hans⟩
    | cons b as =>
      have hnot : ¬ AllCame pieces (done ++ [a]) := by
        intro hall
        refine hmissing fun p hp => ?_
        have := hall p hp
        simp only [dropLast_cons_cons, map_append, map_cons, map_nil, mem_append,
          mem_cons, not_mem_nil, or_false] at this ⊢
        tauto
      have hc : u.completed = false := by
        rw [Bool.eq_false_iff]
        exact fun hc => hnot (hans.completed.mp hc)
      obtain ⟨hrc, hstate⟩ := hans.stored hc
      obtain ⟨u', hrun, hans'⟩ := ih hstate (by simp) (by simpa using hsent) (by simpa using hmax)
        (by simpa using hmissing)
      refine ⟨u', ?_, by simpa using hans'⟩
      have hstep : ip4FullReassRun maxReassLen thread vm reass ((a :: b :: as).map Prod.fst) =
          ip4FullReassRun maxReassLen thread u.vm u.reass ((b :: as).map Prod.fst) := by
        simp only [map_cons, ip4FullReassRun, hu, hrc, hc, and_self, if_true]
      rw [hstep, hrun]

/-- Fragments in any order, with duplicates: the context is complete exactly when the last missing piece comes, and
    emits the datagram behind the header of its first piece, with the flags and the offset cleared and the length
    corrected. -/
theorem ip4FullReass_inverts (maxReassLen thread now : ℕ) (as : List (Arrival × Piece))
    (hne : as ≠ []) (hcut : Cut text pieces)
    (hsent : Sent vm₀ text pieces as) (hmax : as.length ≤ maxReassLen) (hmissing : ¬ AllCame pieces as.dropLast)
    (hsize : 0 < vm₀.dataSize ∧ vm₀.dataSize + 128 < 2 ^ 16)
    (hfit : ∀ p ∈ pieces, p.lo = 0 → p.header.length + text.length < 2 ^ 16) :
    ∃ u, ip4FullReassRun maxReassLen thread vm₀ (ip4FullReassInit now thread) (as.map Prod.fst) = some u ∧
      (u.completed = true ↔ AllCame pieces as) ∧ (u.completed = false → u.rc = .ok) ∧
      (u.completed = true → ∃ p ∈ pieces, p.lo = 0 ∧ ∃ first out header, u.bi = some first ∧
        Packet u.vm first out ∧
        u.vm.contents out = header ++ text ∧ Corrected p.header (p.header.length + text.length) header) := by
  have hnew : Reassembling vm₀ (([] : List (Arrival × Piece)).map fun a => a.1.bi) vm₀
    (ip4FullReassInit now thread) :=
    Reassembling.new vm₀ now thread
  obtain ⟨u, hu, hans⟩ :=
    run_pieces maxReassLen thread hnew hne (by simpa using hsent) hcut hsize (by simpa using hmax)
    (by simpa using hmissing)
  refine ⟨u, hu, hans.completed, fun hc => (hans.stored hc).1, fun hc => ?_⟩
  obtain ⟨p, hp, hlo, h20, first, out, hbi, hpk, hcont⟩ := hans.emitted hc
  exact ⟨p, hp, hlo, first, out, _, hbi, hpk, hcont, corrected_emittedHeader h20 (hfit p hp hlo)⟩

/-- Two pieces, the second one first and then again. -/
theorem ip4FullReass_inverts_two :
    let text : Bytes := [1, 2, 3, 4, 5, 6, 7, 8, 9, 10, 11]
    let first : Piece := ⟨fragmentHeader 0 true 8 [], 0, 8⟩
    let vm₀ : Vm := { buffer := fun i => if i = 2 then fragmentBuffer 0 true [1, 2, 3, 4, 5, 6, 7, 8]
                                         else fragmentBuffer 1 false [9, 10, 11]
                      nBuffers := 3, dataSize := 2048, available := [], freed := [] }
    ∃ u, ip4FullReassRun 3 0 vm₀ (ip4FullReassInit 0 0)
      [⟨0, none, 0⟩, ⟨1, none, 1⟩, ⟨2, none, 2⟩] = some u ∧
      u.completed = true ∧ ∃ start out header, u.bi = some start ∧ u.vm.contents out = header ++ text ∧
        Corrected first.header 31 header := by
  intro text first vm₀
  let last : Piece := ⟨fragmentHeader 1 false 3 [], 8, 11⟩
  let as : List (Arrival × Piece) := [(⟨0, none, 0⟩, last), (⟨1, none, 1⟩, last), (⟨2, none, 2⟩, first)]
  have hcut : Cut text [first, last] := by decide +kernel
  have hsent : Sent vm₀ text [first, last] as := by decide +kernel
  obtain ⟨u, hu, hc, -, hemit⟩ := ip4FullReass_inverts 3 0 0 as (by simp [as]) hcut hsent (by decide)
    (by decide +kernel) (by decide) (by decide +kernel)
  have hcomp : u.completed = true := hc.mpr (by decide +kernel)
  obtain ⟨p, hp, hlo, start, out, header, hbi, -, hcont, hcorr⟩ := hemit hcomp
  obtain rfl : p = first := by
    rcases mem_cons.mp hp with rfl | hp
    · rfl
    · obtain rfl : p = last := by simpa using hp
      exact absurd hlo (by decide)
  exact ⟨u, hu, hcomp, start, out, header, hbi, hcont, hcorr⟩

/-- A buffer that holds `text` and then `n` times the same byte. -/
def filledBuffer (text : Bytes) (n : ℕ) : VlibBuffer :=
  { bufferOf text with currentLength := text.length + n, data := fun k => text.getD k.toNat 7 }

theorem bytes_filledBuffer (text : Bytes) (n : ℕ) : (filledBuffer text n).bytes = text ++ replicate n 7 := by
  refine ext_getElem? fun k => ?_
  rcases lt_or_ge k (text.length + n) with hk | hk
  · have hcur : (filledBuffer text n).current k = text.getD k 7 := by
      have hz : (0 : ℤ) + (k : ℤ) = k := by omega
      simp only [VlibBuffer.current, filledBuffer, bufferOf, hz, Int.toNat_natCast]
    rw [getElem?_bytes _ (show k < (filledBuffer text n).currentLength from hk), hcur, getD_eq_getElem?_getD]
    rcases lt_or_ge k text.length with hlt | hge
    · rw [getElem?_append_left hlt, getElem?_eq_getElem hlt, Option.getD_some]
    · rw [getElem?_append_right hge, getElem?_eq_none hge, getElem?_replicate, if_pos (by omega),
        Option.getD_none]
  · rw [getElem?_eq_none (by rw [length_bytes]; exact hk), getElem?_eq_none (by simpa using hk)]

/-- A datagram of 65515 octets whose first header has an option. -/
def longText : Bytes := replicate 65515 7

def longFirst : Piece := ⟨fragmentHeader 0 true 8 [1, 1, 1, 1], 0, 8⟩
def longLast : Piece := ⟨fragmentHeader 1 false 65507 [], 8, 65515⟩

/-- The second piece is in two buffers. -/
def longVm : Vm :=
  { buffer := fun i =>
      if i = 0 then filledBuffer longFirst.header 8
      else if i = 1 then { filledBuffer longLast.header 39980 with nextPresent := true, nextBuffer := 2 }
      else filledBuffer [] 25527
    nBuffers := 3, dataSize := 40000, available := [], freed := [] }

theorem cut_long : Cut longText [longFirst, longLast] := by
  have hlen : longText.length = 65515 := by rw [longText, length_replicate]
  refine ⟨by decide, ?_, by decide +kernel, ?_, by rw [hlen]⟩
  · rw [hlen]
    decide +kernel
  · rw [hlen]
    decide +kernel

theorem octets_long (p : Piece) (h : p.hi ≤ 65515) : p.octets longText = replicate (p.hi - p.lo) 7 := by
  rw [Piece.octets, longText, drop_replicate, take_replicate]
  congr 1
  omega

theorem sent_long : Sent longVm longText [longFirst, longLast]
    [(⟨0, none, 0⟩, longFirst), (⟨1, none, 1⟩, longLast)] := by
  have hlen : longText.length = 65515 := by rw [longText, length_replicate]
  have hchain₀ : longVm.chain 0 = [0] := by decide +kernel
  have hchain₁ : longVm.chain 1 = [1, 2] := by decide +kernel
  refine ⟨by decide +kernel, ?_, by decide +kernel, by decide +kernel⟩
  simp only [mem_cons, not_mem_nil, or_false, forall_eq_or_imp, forall_eq]
  constructor
  · refine ⟨by decide +kernel, by decide +kernel, by decide +kernel, by decide +kernel, ?_, [], ?_⟩
    · rw [hlen]
      decide +kernel
    · rw [append_nil, hchain₀, octets_long _ (by decide)]
      exact (bytes_filledBuffer longFirst.header 8).symm
  · refine ⟨by decide +kernel, by decide +kernel, by decide +kernel, by decide +kernel, ?_, [], ?_⟩
    · rw [hlen]
      decide +kernel
    · have hbytes₁ : (longVm.buffer 1).bytes = longLast.header ++ replicate 39980 7 :=
        (bytes_congr rfl rfl rfl).trans (bytes_filledBuffer longLast.header 39980)
      have hbytes₂ : (longVm.buffer 2).bytes = replicate 25527 7 := bytes_filledBuffer [] 25527
      rw [append_nil, hchain₁, octets_long _ (by decide), contents_cons, contents_cons, contents_nil,
        hbytes₁, hbytes₂,
        append_nil, append_assoc, replicate_append_replicate]
      rfl

/-- The header with its option and the datagram have 65539 bytes, which the length field cannot say. -/
theorem ip4FullReass_length_wraps :
    let as : List (Arrival × Piece) := [(⟨0, none, 0⟩, longFirst), (⟨1, none, 1⟩, longLast)]
    let pieces := [longFirst, longLast]
    Cut longText pieces ∧ Sent longVm longText pieces as ∧ AllCame pieces as ∧ ¬ AllCame pieces as.dropLast ∧
      ∃ u, ip4FullReassRun 3 0 longVm (ip4FullReassInit 0 0) (as.map Prod.fst) = some u ∧ u.completed = true ∧
        ∀ p ∈ pieces, p.lo = 0 → ∀ out header, u.vm.contents out = header ++ longText →
          ¬ Corrected p.header (p.header.length + longText.length) header := by
  intro as pieces
  have hmissing : ¬ AllCame pieces as.dropLast := by decide +kernel
  have hall : AllCame pieces as := by decide +kernel
  have hnew : Reassembling longVm (([] : List (Arrival × Piece)).map fun a => a.1.bi) longVm (ip4FullReassInit 0 0) :=
    Reassembling.new longVm 0 0
  obtain ⟨u, hu, hans⟩ := run_pieces 3 0 hnew (by simp) sent_long cut_long (by decide) (by decide) hmissing
  refine ⟨cut_long, sent_long, hall, hmissing, u, hu, hans.completed.mpr hall,
    fun p hp hlo out header _ hcorr => ?_⟩
  have hlt := ofBe_lt ((header.drop 2).take 2)
  have hle : ((header.drop 2).take 2).length ≤ 2 := by
    rw [length_take]
    exact min_le_left _ _
  have hpow : 256 ^ ((header.drop 2).take 2).length ≤ 256 ^ 2 := Nat.pow_le_pow_right (by decide) hle
  rw [hcorr.total, longText, length_replicate] at hlt
  have hhdr : p.header.length = 24 := by
    rcases mem_cons.mp hp with rfl | hp
    · decide
    · obtain rfl : p = longLast := by simpa using hp
      exact absurd hlo (by decide)
  omega

end Vpp.Ip
