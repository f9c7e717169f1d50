import Vpp.Ip.Reass.Ip4Join
import Vpp.Ip.Reass.Held

/-! `ip4_full_reass_finalize` on the ranges of a context.

    The packets of the ranges are apart from each other. The loop over the ranges joins them one after the
    other (`Joining`): the buffers joined so far are linked, hold what was kept of the ranges passed, and
    the buffers of the ranges still to come are as they were. -/

namespace Vpp.Ip
open Vpp.Schemes Vpp.Vlib List

variable {vm : Vm} {firstBi : ℕ} {r : Range} {ranges before rest : List Range} {joined : List ℕ}
  {text : Bytes} {j : Joined}

/-- All buffers of the ranges. -/
def buffersOf (vm : Vm) (ranges : List Range) : List ℕ := ranges.flatMap fun r => vm.chain r.bi

@[simp] theorem buffersOf_nil : buffersOf vm [] = [] := rfl
@[simp] theorem buffersOf_cons : buffersOf vm (r :: rest) = vm.chain r.bi ++ buffersOf vm rest := rfl
@[simp] theorem buffersOf_append : buffersOf vm (before ++ rest) = buffersOf vm before ++ buffersOf vm rest := by
  simp [buffersOf]

/-- The ranges are ends of fragments, and the packets in which these came are apart from each other. -/
structure Stored (vm : Vm) (ranges : List Range) : Prop where
  good : ∀ r ∈ ranges, r.Good
  packet : ∀ r ∈ ranges, Packet vm r.bi (vm.chain r.bi)
  nodup : (buffersOf vm ranges).Nodup

/-- What the packet holds behind its header. -/
def payload (vm : Vm) (bi : ℕ) : Bytes := (vm.contents (vm.chain bi)).drop (ip4HeaderBytes (vm.buffer bi))

/-- The packet holds the range. -/
def Fits (vm : Vm) (r : Range) : Prop :=
  ip4HeaderBytes (vm.buffer r.bi) + r.dataOffset + r.dataLen ≤ (vm.contents (vm.chain r.bi)).length

/-- The octets of a range. -/
def rangeBytes (vm : Vm) (r : Range) : Bytes := ((payload vm r.bi).drop r.dataOffset).take r.dataLen

/-- What is kept of the packet of a range: the first one keeps its header. -/
def kept (vm : Vm) (firstBi : ℕ) (r : Range) : Bytes :=
  if r.bi = firstBi then (vm.contents (vm.chain r.bi)).take (ip4HeaderBytes (vm.buffer r.bi) + r.dataLen)
  else rangeBytes vm r

theorem length_rangeBytes (h : Fits vm r) : (rangeBytes vm r).length = r.dataLen := by
  rw [Fits] at h
  simp only [rangeBytes, payload, length_take, length_drop]
  omega

/-! ### One more range -/

theorem u32_sub_u32 {k : ℕ} (n : ℤ) (hk : k < 2 ^ 32) : u32 (n - u32 (n - k)) = k := by
  unfold u32
  omega

theorem ne_u32_sub {k : ℕ} (n : ℕ) (hpos : 0 < k) (hk : k < 2 ^ 32) : n ≠ u32 ((n : ℤ) - k) := by
  unfold u32
  omega

theorem ip4HeaderBytes_le (b : VlibBuffer) : ip4HeaderBytes b ≤ 60 := by
  have h : (b.current 0).toNat &&& 0xf ≤ 0xf := Nat.and_le_right
  rw [ip4HeaderBytes]
  omega

/-- What is trimmed from the front of a range, and how much of it is kept. -/
def trimOf (vm : Vm) (firstBi : ℕ) (r : Range) : ℕ × ℕ :=
  if r.bi = firstBi then (0, ip4HeaderBytes (vm.buffer r.bi) + r.dataLen)
  else (ip4HeaderBytes (vm.buffer r.bi) + r.dataOffset, r.dataLen)

theorem kept_eq (vm : Vm) (firstBi : ℕ) (r : Range) : kept vm firstBi r =
    ((vm.contents (vm.chain r.bi)).drop (trimOf vm firstBi r).1).take (trimOf vm firstBi r).2 := by
  unfold kept trimOf
  split
  · rfl
  · simp only [rangeBytes, payload, drop_drop]

/-- The loop at a range: no 32-bit difference is off. -/
theorem joinRanges_cons (hgood : r.Good) (hoff : r.bi = firstBi → r.dataOffset = 0) :
    joinRanges firstBi (r :: rest) j =
      match joinBuffers firstBi (j.vm.chain r.bi) j (trimOf j.vm firstBi r).1 (trimOf j.vm firstBi r).2 with
      | .error j => .error j
      | .ok j => joinRanges firstBi rest j := by
  have hhdr := ip4HeaderBytes_le (j.vm.buffer r.bi)
  have hlen := Nat.mod_lt (min r.rangeLast r.fragmentLast + 2 ^ 32 - (r.fragmentFirst + r.dataOffset) % 2 ^ 32 + 1)
    (show 0 < 2 ^ 16 by decide)
  have hdl : r.dataLen < 2 ^ 16 := hlen
  have hpos := hgood.dataLen_pos
  have hdo : r.dataOffset < 2 ^ 16 := by
    have h1 := hgood.nonempty
    have h2 := hgood.lt
    rw [hgood.dataOffset]
    omega
  rw [joinRanges, if_neg (by simp [hgood.sane])]
  rcases eq_or_ne r.bi firstBi with hfirst | hother
  · have hk : u32 ((j.vm.vlibBufferLengthInChain r.bi : ℤ) - r.dataLen - ip4HeaderBytes (j.vm.buffer r.bi)) =
        u32 ((j.vm.vlibBufferLengthInChain r.bi : ℤ) - (ip4HeaderBytes (j.vm.buffer r.bi) + r.dataLen : ℕ)) := by
      congr 1
      omega
    simp only [hfirst, ↓reduceIte, true_and, trimOf] at hk ⊢
    simp only [← hfirst] at hk ⊢
    rw [hk, if_neg]
    · congr 2
      simp only [Nat.cast_zero, sub_zero]
      exact u32_sub_u32 _ (by omega)
    · rintro (h | h)
      · exact h (hoff hfirst)
      · exact ne_u32_sub _ (by omega) (by omega) h
  · simp only [hother, ↓reduceIte, false_and, trimOf]
    have ht : u32 ((ip4HeaderBytes (j.vm.buffer r.bi) : ℤ) + r.dataOffset) =
        ip4HeaderBytes (j.vm.buffer r.bi) + r.dataOffset := by
      unfold u32
      omega
    rewrite [ht, u32_sub_u32 _ (by omega)]
    rfl

/-- The loop has joined the ranges `before`. -/
structure Joining (vm : Vm) (before : List Range) (joined : List ℕ) (text : Bytes) (j : Joined) : Prop where
  sublist : joined.Sublist (buffersOf vm before)
  linked : joined.IsChain (NextIs j.vm.buffer)
  contents : j.vm.contents joined = text
  lastB : j.lastB = joined.getLast?
  totalLength : j.totalLength = text.length
  same : SameOutside (buffersOf vm before) vm j.vm
  owned : ∀ i ∈ joined, Owned vm.dataSize (vm.buffer i) → Owned vm.dataSize (j.vm.buffer i)

theorem Joining.start (vm : Vm) : Joining vm [] [] [] { vm := vm, lastB := none, totalLength := 0 } :=
  ⟨.refl _, isChain_nil, rfl, rfl, rfl, .refl _ _, fun _ hi => by cases hi⟩

section

variable (h : Joining vm before joined text j)
include h

/-- The loop has not touched the packet of a range to come. -/
theorem Joining.untouched (hs : Stored vm (before ++ r :: rest)) :
    (∀ i ∈ vm.chain r.bi, i ∉ buffersOf vm before ∧ j.vm.buffer i = vm.buffer i) ∧
      j.vm.chain r.bi = vm.chain r.bi := by
  have hnd := hs.nodup
  rw [buffersOf_append, buffersOf_cons] at hnd
  have hout : ∀ i ∈ vm.chain r.bi, i ∉ buffersOf vm before := fun i hi hb =>
    disjoint_of_nodup_append hnd hb (mem_append_left _ hi)
  have hpk := hs.packet r (by simp)
  exact ⟨fun i hi => ⟨hout i hi, h.same.buffer i (hout i hi)⟩, (hpk.congr h.same hout).chain_eq⟩

/-- The buffers that the loop joins to are not those of a range to come. -/
theorem Joining.lastB_subset : j.lastB.toList ⊆ buffersOf vm before := by
  intro i hi
  rw [h.lastB] at hi
  exact h.sublist.subset (mem_of_getLast? (by simpa using hi))

/-- The joined buffers are still joined when the next range is. -/
theorem Joining.keep {kept' l : List ℕ} {t : Bytes} {j' : Joined} (hj : JoinedTo l kept' t j j')
    (hnd : joined.Nodup) (hl : ∀ i ∈ joined, i ∉ l) :
    (joined ++ kept').IsChain (NextIs j'.vm.buffer) ∧
      ∀ i ∈ joined, SameButLinks (j.vm.buffer i) (j'.vm.buffer i) := by
  rcases eq_nil_or_concat joined with rfl | ⟨init, last, rfl⟩
  · exact ⟨hj.linked, fun _ hi => by cases hi⟩
  · rw [concat_eq_append] at *
    have hlast : j.lastB = some last := by rw [h.lastB]; simp
    obtain ⟨head, hhead, hbuf⟩ := hj.before last hlast
    have hinit : ∀ i ∈ init, j'.vm.buffer i = j.vm.buffer i := by
      intro i hi
      refine hj.same.buffer i ?_
      simp only [hlast, Option.toList_some, mem_append, mem_singleton, not_or]
      refine ⟨hl i (mem_append_left _ hi), fun hil => ?_⟩
      exact disjoint_of_nodup_append hnd hi (by simp [hil])
    refine ⟨?_, ?_⟩
    · have hlinked := h.linked
      rw [isChain_append] at hlinked ⊢
      obtain ⟨hl₁, -, hl₂⟩ := hlinked
      have hk : ∀ i ∈ init, ∀ k, NextIs j.vm.buffer i k → NextIs j'.vm.buffer i k := fun i hi k hik => by
        rw [NextIs, hinit i hi]
        exact hik
      refine ⟨isChain_append.mpr ⟨List.IsChain.imp_of_mem_imp (fun i k hi _ => hk i hi k) hl₁,
        isChain_singleton last, fun i hi k hk' => hk i (mem_of_getLast? hi) k (hl₂ i hi k hk')⟩, hj.linked, ?_⟩
      intro i hi k hkept
      obtain rfl : last = i := by simpa using hi
      obtain rfl : head = k := by
        rw [hhead] at hkept
        simpa using hkept
      exact ⟨by rw [hbuf], by rw [hbuf]⟩
    · intro i hi
      rcases mem_append.mp hi with hi | hi
      · rw [hinit i hi]
        exact .refl _
      · obtain rfl : i = last := by simpa using hi
        rw [hbuf]
        rfl

/-- One round of the loop over the ranges. -/
theorem Joining.step (hs : Stored vm (before ++ r :: rest)) (hfits : Fits vm r)
    (hfirst : before = [] → r.bi = firstBi ∧ r.dataOffset = 0)
    (hother : before ≠ [] → firstBi ∈ buffersOf vm before) :
    ∃ j' kept', joinRanges firstBi (r :: rest) j = joinRanges firstBi rest j' ∧
      Joining vm (before ++ [r]) (joined ++ kept') (text ++ kept vm firstBi r) j' ∧
      (∀ i ∈ joined, SameButLinks (j.vm.buffer i) (j'.vm.buffer i)) ∧
      (before = [] → kept'.head? = some r.bi ∧ (j'.vm.buffer r.bi).currentLength =
        min (vm.buffer r.bi).currentLength (ip4HeaderBytes (vm.buffer r.bi) + r.dataLen)) := by
  obtain ⟨hsame, hchain⟩ := h.untouched hs
  have hgood := hs.good r (by simp)
  have hpk := hs.packet r (by simp)
  have hbi : r.bi ∈ vm.chain r.bi := hpk.head_mem
  have hbuf : j.vm.buffer r.bi = vm.buffer r.bi := (hsame _ hbi).2
  have hcontents : j.vm.contents (vm.chain r.bi) = vm.contents (vm.chain r.bi) :=
    contents_congr fun i hi => (hsame i hi).2
  have htrim : trimOf j.vm firstBi r = trimOf vm firstBi r := by simp only [trimOf, hbuf]
  have hoff : r.bi = firstBi → r.dataOffset = 0 := by
    intro hr
    rcases eq_or_ne before [] with hb | hb
    · exact (hfirst hb).2
    · exact absurd (hr ▸ hother hb) (hsame _ hbi).1
  have hpos := hgood.dataLen_pos
  have hlen : (trimOf vm firstBi r).1 + (trimOf vm firstBi r).2 ≤ (j.vm.contents (vm.chain r.bi)).length := by
    rw [hcontents]
    rw [Fits] at hfits
    unfold trimOf
    split <;> simp only <;> omega
  have hkeep : 0 < (trimOf vm firstBi r).2 := by
    unfold trimOf
    split <;> simp only <;> omega
  have hlast : ∀ i ∈ vm.chain r.bi, i ∉ j.lastB.toList := fun i hi hil => (hsame i hi).1 (h.lastB_subset hil)
  have hfirst' : firstBi ∉ (vm.chain r.bi).tail := by
    intro hmem
    rcases eq_or_ne before [] with hb | hb
    · obtain ⟨tail, htail⟩ := hpk.exists_cons
      have hnd := hpk.nodup
      rw [htail] at hnd hmem
      exact (nodup_cons.mp hnd).1 ((hfirst hb).1 ▸ hmem)
    · exact (hsame _ (mem_of_mem_tail hmem)).1 (hother hb)
  obtain ⟨j', kept', hok, hj, hhead⟩ := joinBuffers_spec hkeep hlen hpk.nodup hlast hfirst'
  rw [hcontents, ← kept_eq] at hj
  have hnd := hs.nodup
  rw [buffersOf_append] at hnd
  have hjl : ∀ i ∈ joined, i ∉ vm.chain r.bi := fun i hi hil => (hsame i hil).1 (h.sublist.subset hi)
  obtain ⟨hlinked, hlinks⟩ := h.keep hj (h.sublist.nodup (nodup_append.mp hnd).1) hjl
  refine ⟨j', kept', ?_, ?_, hlinks, ?_⟩
  · rw [joinRanges_cons hgood hoff, hchain, htrim, hok]
  · refine ⟨?_, hlinked, ?_, ?_, ?_, ?_, ?_⟩
    · rw [buffersOf_append, buffersOf_cons, buffersOf_nil, append_nil]
      exact h.sublist.append hj.sublist
    · rw [contents_append, contents_congr_bytes fun i hi => (hlinks i hi).bytes, h.contents, hj.contents]
    · rw [hj.lastB, getLast?_append]
      cases hkl : kept'.getLast? with
      | some k => rfl
      | none =>
        obtain rfl : kept' = [] := getLast?_eq_none_iff.mp hkl
        have hlen0 := congrArg length hj.contents
        rw [contents_nil, kept_eq, length_take, length_drop, ← hcontents] at hlen0
        simp only [length_nil] at hlen0
        omega
    · rw [hj.totalLength, h.totalLength, length_append]
    · refine (h.same.trans hj.same).mono ?_
      intro i hi
      simp only [buffersOf_append, buffersOf_cons, buffersOf_nil, append_nil, mem_append] at hi ⊢
      rcases hi with hi | hi | hi
      · exact Or.inl hi
      · exact Or.inr hi
      · exact Or.inl (h.lastB_subset hi)
    · intro i hi hown
      rcases mem_append.mp hi with hi | hi
      · exact (hlinks i hi).owned (h.owned i hi hown)
      · have hsize : j.vm.dataSize = vm.dataSize := h.same.dataSize
        have := hj.owned i hi
        rw [hsize, (hsame i (hj.sublist.subset hi)).2] at this
        exact this hown
  · intro hb
    have htrim' : trimOf vm firstBi r = (0, ip4HeaderBytes (vm.buffer r.bi) + r.dataLen) := by
      rw [trimOf, if_pos (hfirst hb).1]
    obtain ⟨hh, hcl⟩ := hhead (by rw [htrim'])
    have hcl' := hcl r.bi hpk.head
    rw [htrim', hbuf] at hcl'
    exact ⟨hh.trans hpk.head, hcl'⟩

/-- The loop over the ranges from `rest` on. -/
theorem Joining.run (hs : Stored vm (before ++ rest)) (hfits : ∀ r ∈ rest, Fits vm r)
    (hb : before ≠ []) (hfirst : firstBi ∈ buffersOf vm before) :
    ∃ j' kept', joinRanges firstBi rest j = .ok j' ∧
      Joining vm (before ++ rest) (joined ++ kept') (text ++ rest.flatMap (kept vm firstBi)) j' ∧
      ∀ i ∈ joined, SameButLinks (j.vm.buffer i) (j'.vm.buffer i) := by
  induction rest generalizing before joined text j with
  | nil => exact ⟨j, [], rfl, by simpa using h, fun _ _ => .refl _⟩
  | cons r rest ih =>
    obtain ⟨j₁, kept₁, hstep, hj₁, hlinks₁, -⟩ := h.step hs (hfits r mem_cons_self)
      (fun hnil => absurd hnil hb) fun _ => hfirst
    have hs₁ : Stored vm ((before ++ [r]) ++ rest) := by simpa using hs
    obtain ⟨j', kept', hrun, hj', hlinks'⟩ := ih hj₁ hs₁ (fun r' hr' => hfits r' (mem_cons_of_mem r hr'))
      (by simp) (by rw [buffersOf_append]; exact mem_append_left _ hfirst)
    refine ⟨j', kept₁ ++ kept', hstep.trans hrun, by simpa using hj', fun i hi => ?_⟩
    exact (hlinks₁ i hi).trans (hlinks' i (mem_append_left _ hi))

end

/-! ### The header -/

/-- The header of the datagram: no fragment any more, with the length and the checksum to match. -/
def emittedHeader (hdr : Bytes) (length : ℕ) : Bytes :=
  let hdr := writeAt (writeAt hdr 6 (toBe 2 0)) 2 (toBe 2 length)
  writeAt hdr 10 (toBe 2 (ip4HeaderChecksum fun k => hdr.getD k 0)).reverse

theorem length_emittedHeader {hdr : Bytes} (h : 20 ≤ hdr.length) (length : ℕ) :
    (emittedHeader hdr length).length = hdr.length := by
  have h1 : (writeAt hdr 6 (toBe 2 0)).length = hdr.length := length_writeAt (by rw [length_toBe]; omega)
  have h2 : (writeAt (writeAt hdr 6 (toBe 2 0)) 2 (toBe 2 length)).length = hdr.length := by
    rw [length_writeAt (by rw [length_toBe, h1]; omega), h1]
  rw [emittedHeader, length_writeAt (by rw [length_reverse, length_toBe, h2]; omega), h2]

theorem headerWord_congr {hdr hdr' : ℕ → Byte} {n k : ℕ} (h : ∀ i < n, hdr i = hdr' i) (hk : 4 * k + 3 < n) :
    headerWord hdr k = headerWord hdr' k := by
  rw [headerWord, headerWord, h (4 * k) (by omega), h (4 * k + 1) (by omega), h (4 * k + 2) (by omega),
    h (4 * k + 3) hk]

/-- The checksum depends on the bytes of the header only. -/
theorem ip4HeaderChecksum_congr {hdr hdr' : ℕ → Byte} {n : ℕ} (h : ∀ i < n, hdr i = hdr' i) (h20 : 20 ≤ n)
    (hn : n = 4 * ((hdr 0).toNat &&& 0xf)) : ip4HeaderChecksum hdr = ip4HeaderChecksum hdr' := by
  have hoptions : ((range (min (((hdr 0).toNat &&& 0xf) - 5) 10)).map fun k => headerWord hdr (5 + k)) =
      (range (min (((hdr 0).toNat &&& 0xf) - 5) 10)).map fun k => headerWord hdr' (5 + k) := by
    refine map_congr_left fun k hk => headerWord_congr h ?_
    have := mem_range.mp hk
    omega
  simp only [ip4HeaderChecksum]
  rw [hoptions, headerWord_congr h (show 4 * 0 + 3 < n by omega), headerWord_congr h (show 4 * 1 + 3 < n by omega),
    headerWord_congr h (show 4 * 3 + 3 < n by omega), headerWord_congr h (show 4 * 4 + 3 < n by omega),
    h 8 (by omega), h 9 (by omega), h 0 (by omega)]

/-- What the first buffer holds when its header, which it holds as a whole, has been rewritten. -/
theorem bytes_finalizeHeader {b : VlibBuffer} {hdr more : Bytes} (length : ℕ) (hb : b.bytes = hdr ++ more)
    (h20 : 20 ≤ hdr.length) (hhdr : hdr.length = ip4HeaderBytes b) :
    (finalizeHeader b length).bytes = emittedHeader hdr length ++ more := by
  have hcl : b.currentLength = hdr.length + more.length := by rw [← length_bytes b, hb, length_append]
  have h1 : (b.store 6 (toBe 2 0)).bytes = writeAt hdr 6 (toBe 2 0) ++ more := by
    rw [bytes_store b (by rw [length_toBe]; omega), hb, writeAt_append _ _ (by rw [length_toBe]; omega)]
  have hl1 : (writeAt hdr 6 (toBe 2 0)).length = hdr.length := length_writeAt (by rw [length_toBe]; omega)
  have h2 : ((b.store 6 (toBe 2 0)).store 2 (toBe 2 length)).bytes =
      writeAt (writeAt hdr 6 (toBe 2 0)) 2 (toBe 2 length) ++ more := by
    rw [bytes_store _ (by simp only [VlibBuffer.store, length_toBe]; omega), h1,
      writeAt_append _ _ (by rw [length_toBe, hl1]; omega)]
  set b₂ := (b.store 6 (toBe 2 0)).store 2 (toBe 2 length) with hb₂
  set hdr₂ := writeAt (writeAt hdr 6 (toBe 2 0)) 2 (toBe 2 length) with hhdr₂
  have hl2 : hdr₂.length = hdr.length := by
    rw [hhdr₂, length_writeAt (by rw [length_toBe, hl1]; omega), hl1]
  have hcl₂ : b₂.currentLength = hdr.length + more.length := hcl
  have hcur : ∀ i < hdr.length, b₂.current i = hdr₂.getD i 0 := by
    intro i hi
    have hget := getElem?_bytes b₂ (show i < b₂.currentLength by omega)
    rw [h2, getElem?_append_left (by omega)] at hget
    rw [getD_eq_getElem?_getD, hget]
    rfl
  have hihl : b₂.current 0 = b.current 0 := by
    rw [hb₂, current_store_of_lt _ _ (by decide), current_store_of_lt _ _ (by decide)]
  have hck : ip4HeaderChecksum b₂.current = ip4HeaderChecksum fun k => hdr₂.getD k 0 :=
    ip4HeaderChecksum_congr hcur h20 (by rw [hihl, hhdr]; rfl)
  have hfin : finalizeHeader b length = b₂.store 10 (toBe 2 (ip4HeaderChecksum b₂.current)).reverse := rfl
  rw [hfin, bytes_store _ (by rw [length_reverse, length_toBe]; omega), h2, hck,
    writeAt_append _ _ (by rw [length_reverse, length_toBe]; omega)]
  rfl

/-! ### The datagram -/

/-- The octets of all ranges. -/
def body (vm : Vm) (ranges : List Range) : Bytes := ranges.flatMap (rangeBytes vm)

/-- What finalizing leaves: the packet at the first buffer is made of the buffers `out`. -/
structure Finalized (vm : Vm) (first : Range) (rest : List Range) (out : List ℕ) (vm' : Vm) : Prop where
  packet : Packet vm' first.bi out
  contents : vm'.contents out =
    emittedHeader ((vm.contents (vm.chain first.bi)).take (ip4HeaderBytes (vm.buffer first.bi)))
      (ip4HeaderBytes (vm.buffer first.bi) + (body vm (first :: rest)).length) ++ body vm (first :: rest)

/-- The first packet holds its header in its first buffer, and that header is no shorter than it may be. -/
@[mk_iff]
structure HeaderIn (b : VlibBuffer) : Prop where
  min : 20 ≤ ip4HeaderBytes b
  le : ip4HeaderBytes b ≤ b.currentLength

instance (b : VlibBuffer) : Decidable (HeaderIn b) := decidable_of_iff' _ (headerIn_iff b)

variable {first : Range}

/-- The loop joins all ranges where the packets hold them. -/
theorem joinRanges_spec (hs : Stored vm (first :: rest)) (hfits : ∀ r ∈ first :: rest, Fits vm r)
    (hoff : first.dataOffset = 0) :
    ∃ j joined, joinRanges first.bi (first :: rest) { vm := vm, lastB := none, totalLength := 0 } = .ok j ∧
      Joining vm (first :: rest) joined
        ((vm.contents (vm.chain first.bi)).take (ip4HeaderBytes (vm.buffer first.bi)) ++ body vm (first :: rest)) j ∧
      joined.head? = some first.bi ∧ (j.vm.buffer first.bi).currentLength =
        min (vm.buffer first.bi).currentLength (ip4HeaderBytes (vm.buffer first.bi) + first.dataLen) := by
  obtain ⟨j₁, kept₁, hstep, hj₁, -, hfirst⟩ := (Joining.start vm).step
    (show Stored vm ([] ++ first :: rest) from hs) (hfits first mem_cons_self) (fun _ => ⟨rfl, hoff⟩)
    fun h => absurd rfl h
  obtain ⟨hhead, hlen⟩ := hfirst rfl
  have hmem : first.bi ∈ kept₁ := mem_of_head? hhead
  have hbi : first.bi ∈ buffersOf vm [first] := by
    rw [buffersOf_cons, buffersOf_nil, append_nil]
    exact (hs.packet first mem_cons_self).head_mem
  obtain ⟨j, kept', hrun, hj, hlinks⟩ := hj₁.run (show Stored vm ([first] ++ rest) from hs)
    (fun r hr => hfits r (mem_cons_of_mem first hr)) (by simp) hbi
  refine ⟨j, kept₁ ++ kept', hstep.trans hrun, ?_, ?_, ?_⟩
  · -- the other ranges keep their octets only
    have hnd := hs.nodup
    have hother : rest.flatMap (kept vm first.bi) = rest.flatMap (rangeBytes vm) := by
      refine flatMap_congr fun r hr => ?_
      have hne : r.bi ≠ first.bi := by
        intro heq
        have h1 : first.bi ∈ vm.chain first.bi := (hs.packet first mem_cons_self).head_mem
        have h2 : r.bi ∈ buffersOf vm rest :=
          mem_flatMap.mpr ⟨r, hr, (hs.packet r (mem_cons_of_mem first hr)).head_mem⟩
        exact disjoint_of_nodup_append hnd h1 (heq ▸ h2)
      rw [kept, if_neg hne]
    have hkept : kept vm first.bi first =
        (vm.contents (vm.chain first.bi)).take (ip4HeaderBytes (vm.buffer first.bi)) ++ rangeBytes vm first := by
      rw [kept, if_pos rfl, rangeBytes, payload, hoff, drop_zero, take_add]
    have hbody : body vm (first :: rest) = rangeBytes vm first ++ rest.flatMap (rangeBytes vm) := rfl
    rw [hbody, ← append_assoc, ← hkept, ← hother]
    exact hj
  · rw [head?_append, hhead]
    rfl
  · rw [(hlinks _ hmem).currentLength, hlen]

/-- The last buffer joined ends the packet. -/
theorem Joining.closed {tail : List ℕ} {last : ℕ}
    (h : Joining vm (first :: rest) (first.bi :: tail) text j) (hs : Stored vm (first :: rest))
    (hlast : (first.bi :: tail).getLast? = some last) :
    let vm₁ := j.vm.modify last fun b => { b with nextPresent := false }
    Packet vm₁ first.bi (first.bi :: tail) ∧ vm₁.contents (first.bi :: tail) = text ∧
      ∀ i, SameButLinks (j.vm.buffer i) (vm₁.buffer i) := by
  intro vm₁
  have hlt : ∀ i ∈ first.bi :: tail, i < j.vm.nBuffers := by
    intro i hi
    obtain ⟨r, hr, hir⟩ := mem_flatMap.mp (h.sublist.subset hi)
    rw [h.same.nBuffers]
    exact (hs.packet r hr).lt i hir
  have hlinks : ∀ i, SameButLinks (j.vm.buffer i) (vm₁.buffer i) := by
    intro i
    rcases eq_or_ne i last with rfl | hi
    · rw [show vm₁ = _ from rfl, buffer_modify_self]
      rfl
    · rw [show vm₁ = _ from rfl, buffer_modify_of_ne hi]
      exact .refl _
  refine ⟨.of_linked rfl h.linked hlast (h.sublist.nodup hs.nodup) hlt, ?_, hlinks⟩
  rw [← h.contents]
  exact contents_congr_bytes fun i _ => (hlinks i).bytes

/-- The first buffer as `ip4_full_reass_finalize` leaves it. -/
def finalizeFirst (rest : ℕ) (b : VlibBuffer) : VlibBuffer :=
  finalizeHeader { b with totalLengthValid := true, totalLengthNotIncludingFirstBuffer := (rest : ℕ) }
    (b.currentLength + rest)

/-- The bytes of a buffer that starts with a header give the length of it. -/
theorem ip4HeaderBytes_of_bytes {b b' : VlibBuffer} {hdr more more' : Bytes} (hb : b.bytes = hdr ++ more)
    (hb' : b'.bytes = hdr ++ more') (hpos : 0 < hdr.length) : ip4HeaderBytes b = ip4HeaderBytes b' := by
  have hfirst {b : VlibBuffer} {more : Bytes} (hb : b.bytes = hdr ++ more) : some (b.current 0) = hdr[0]? := by
    have hlen := congrArg length hb
    rw [length_bytes, length_append] at hlen
    rw [← getElem?_append_left hpos, ← hb]
    exact (getElem?_bytes b (by omega)).symm
  have hcurrent : b.current 0 = b'.current 0 := Option.some.inj ((hfirst hb).trans (hfirst hb').symm)
  rw [ip4HeaderBytes, ip4HeaderBytes, hcurrent]

/-- Writing the header to the first buffer, which holds it as a whole. -/
theorem contents_finalizeFirst {bi : ℕ} {tail : List ℕ} {hdr : Bytes} (hp : Packet vm bi (bi :: tail))
    (hc : vm.contents (bi :: tail) = hdr ++ text) (hle : hdr.length ≤ (vm.buffer bi).currentLength)
    (h20 : 20 ≤ hdr.length) (hhdr : hdr.length = ip4HeaderBytes (vm.buffer bi)) (hshort : text.length < 2 ^ 16) :
    let vm' := vm.modify bi (finalizeFirst (vm.contents tail).length)
    Packet vm' bi (bi :: tail) ∧ vm'.contents (bi :: tail) = emittedHeader hdr (hdr.length + text.length) ++ text ∧
      vm'.contents tail = vm.contents tail ∧ vm'.vlibBufferLengthInChain bi = (vm'.contents (bi :: tail)).length := by
  intro vm'
  have hbuf : vm'.buffer bi = finalizeFirst (vm.contents tail).length (vm.buffer bi) := buffer_modify_self
  have hp' : Packet vm' bi (bi :: tail) := hp.modify rfl rfl
  have hne : ∀ i ∈ tail, i ≠ bi := fun i hi h => (nodup_cons.mp hp.nodup).1 (h ▸ hi)
  have htail : vm'.contents tail = vm.contents tail := contents_congr fun i hi => buffer_modify_of_ne (hne i hi)
  have hlen := congrArg length hc
  rw [contents_cons, length_append, length_bytes, length_append] at hlen
  have htake := congrArg (take (vm.buffer bi).currentLength) hc
  rw [contents_cons, take_append_of_le_length (by rw [length_bytes]),
    take_of_length_le (by rw [length_bytes]), take_append, take_of_length_le hle] at htake
  have hdrop := congrArg (drop (vm.buffer bi).currentLength) hc
  rw [contents_cons, drop_append, drop_of_length_le (by rw [length_bytes]), length_bytes, Nat.sub_self,
    drop_zero, nil_append, drop_append, drop_of_length_le hle, nil_append] at hdrop
  refine ⟨hp', ?_, htail, ?_⟩
  · have hb := bytes_finalizeHeader (hdr.length + text.length)
      (b := { vm.buffer bi with
              totalLengthValid := true, totalLengthNotIncludingFirstBuffer := ((vm.contents tail).length : ℕ) })
      ((bytes_congr rfl rfl rfl).trans htake) h20 hhdr
    rw [contents_cons, hbuf, finalizeFirst, hlen, hb, htail, append_assoc, hdrop, take_append_drop]
  · have htotal : (vm'.buffer bi).totalLengthNotIncludingFirstBuffer = ((vm.contents tail).length : ℕ) := by
      rw [hbuf]
      rfl
    rw [hp'.lengthInChain_eq, contents_cons, length_append, length_bytes, htail, htotal]
    split <;> omega

/-- Finalizing ranges that their packets hold succeeds, and emits the header of the first one and the octets of all. -/
theorem ip4FullReassFinalize_spec (hs : Stored vm (first :: rest))
    (hfits : ∀ r ∈ first :: rest, Fits vm r) (hoff : first.dataOffset = 0)
    (hhdr : HeaderIn (vm.buffer first.bi))
    (hown : ∀ i ∈ buffersOf vm (first :: rest), Owned vm.dataSize (vm.buffer i))
    (hsize : 0 < vm.dataSize ∧ vm.dataSize + 128 < 2 ^ 16)
    (hbody : (body vm (first :: rest)).length < 2 ^ 16) :
    ∃ vm' out, ip4FullReassFinalize vm (first :: rest) = some (.ok, vm') ∧ Finalized vm first rest out vm' := by
  obtain ⟨j, joined, hjoin, hj, hhead, hlen⟩ := joinRanges_spec hs hfits hoff
  set hdr := (vm.contents (vm.chain first.bi)).take (ip4HeaderBytes (vm.buffer first.bi)) with hhdrDef
  set text := body vm (first :: rest) with htext
  have hfit := hfits first mem_cons_self
  have hhlen : hdr.length = ip4HeaderBytes (vm.buffer first.bi) := by
    rw [Fits] at hfit
    rw [hhdrDef, length_take]
    omega
  obtain ⟨tail, rfl⟩ : ∃ tail, joined = first.bi :: tail := by
    cases joined with
    | nil => simp at hhead
    | cons i tail =>
      obtain rfl : i = first.bi := by simpa using hhead
      exact ⟨tail, rfl⟩
  obtain ⟨last, hlast⟩ : ∃ last, (first.bi :: tail).getLast? = some last := ⟨_, getLast?_cons⟩
  obtain ⟨hp₁, hc₁, hlinks₁⟩ := hj.closed hs hlast
  set vm₁ := j.vm.modify last fun b => { b with nextPresent := false } with hvm₁
  have hlen₁ := (hlinks₁ first.bi).currentLength.trans hlen
  have hhdrLe : hdr.length ≤ (vm₁.buffer first.bi).currentLength := by
    have := hhdr.le
    omega
  have hsum := congrArg length hc₁
  rw [contents_cons, length_append, length_bytes, length_append] at hsum
  -- the header tells its length in the datagram as it did in the fragment
  have hihl : hdr.length = ip4HeaderBytes (vm₁.buffer first.bi) := by
    have hmin := hhdr.min
    have htake := congrArg (take (vm₁.buffer first.bi).currentLength) hc₁
    rw [contents_cons, take_append_of_le_length (by rw [length_bytes]),
      take_of_length_le (by rw [length_bytes]), take_append, take_of_length_le hhdrLe] at htake
    obtain ⟨more, hchain⟩ := (hs.packet first mem_cons_self).exists_cons
    have hfirst : (vm.buffer first.bi).bytes = hdr ++ (vm.buffer first.bi).bytes.drop hdr.length := by
      rw [hhlen, hhdrDef, hchain, contents_cons,
        take_append_of_le_length (by rw [length_bytes]; exact hhdr.le), take_append_drop]
    rw [hhlen, ip4HeaderBytes_of_bytes hfirst htake (by omega)]
  obtain ⟨hp₂, hc₂, htail, hlen₂⟩ := contents_finalizeFirst hp₁ hc₁ hhdrLe
    (by rw [hhlen]; exact hhdr.min) hihl hbody
  set vm₂ := vm₁.modify first.bi (finalizeFirst (vm₁.contents tail).length) with hvm₂
  have hsz : vm₂.dataSize = vm.dataSize := hj.same.dataSize
  have hown₂ : ∀ i ∈ first.bi :: tail, Owned vm₂.dataSize (vm₂.buffer i) := by
    intro i hi
    have h1 : Owned vm.dataSize (vm₁.buffer i) :=
      (hlinks₁ i).owned (hj.owned i hi (hown i (hj.sublist.subset hi)))
    rw [hsz]
    rcases eq_or_ne i first.bi with rfl | hne
    · rw [hvm₂, buffer_modify_self]
      exact ⟨h1.refCount, h1.headRoom, h1.area⟩
    · rw [hvm₂, buffer_modify_of_ne hne]
      exact h1
  obtain ⟨n, vm', out, cut, hlin, hL⟩ :=
    vlibBufferChainLinearize_spec hp₂ hown₂ (by rw [hsz]; exact hsize) hlen₂
    (by rw [contents_cons, length_append, length_bytes, htail]; omega)
  refine ⟨vm', out, ?_, hL.packet, by rw [hL.contents, hc₂, hhlen]⟩
  have hjl : j.lastB = some last := by rw [hj.lastB, hlast]
  have hnot : ¬ j.totalLength < (vm₁.buffer first.bi).currentLength := by
    rw [hj.totalLength, length_append]
    omega
  have htotal : j.totalLength - (vm₁.buffer first.bi).currentLength = (vm₁.contents tail).length := by
    rw [hj.totalLength, length_append]
    omega
  simp only [ip4FullReassFinalize, hjoin, hjl, ← hvm₁, if_neg hnot, htotal]
  exact hlin ▸ rfl

/-- Finalizing succeeds only where the packets hold the ranges. -/
theorem fits_of_joinRanges (h : Joining vm before joined text j) (hs : Stored vm (before ++ rest))
    (hfirst : before = [] → ∃ r, rest.head? = some r ∧ r.bi = firstBi ∧ r.dataOffset = 0)
    (hother : before ≠ [] → firstBi ∈ buffersOf vm before) {j' : Joined}
    (hok : joinRanges firstBi rest j = .ok j') :
    ∀ r ∈ rest, Fits vm r := by
  induction rest generalizing before joined text j with
  | nil => simp
  | cons r rest ih =>
    have hf : before = [] → r.bi = firstBi ∧ r.dataOffset = 0 := by
      intro hb
      obtain ⟨r', hr', hfb⟩ := hfirst hb
      obtain rfl : r = r' := by simpa using hr'
      exact hfb
    have hfits : Fits vm r := by
      by_contra hnot
      obtain ⟨hsame, hchain⟩ := h.untouched hs
      have hgood := hs.good r (by simp)
      have hpk := hs.packet r (by simp)
      have hbuf : j.vm.buffer r.bi = vm.buffer r.bi := (hsame _ hpk.head_mem).2
      have hoff : r.bi = firstBi → r.dataOffset = 0 := by
        intro hr
        rcases eq_or_ne before [] with hb | hb
        · exact (hf hb).2
        · exact absurd (hr ▸ hother hb) (hsame _ hpk.head_mem).1
      have hlen : (j.vm.contents (vm.chain r.bi)).length < (trimOf vm firstBi r).1 + (trimOf vm firstBi r).2 := by
        rw [contents_congr fun i hi => (hsame i hi).2]
        rw [Fits] at hnot
        rcases eq_or_ne r.bi firstBi with hb | hb
        · have := hoff hb
          simp only [trimOf, if_pos hb]
          omega
        · simp only [trimOf, if_neg hb]
          omega
      have hlast : ∀ i ∈ vm.chain r.bi, i ∉ j.lastB.toList := fun i hi hil => (hsame i hi).1 (h.lastB_subset hil)
      have hne : vm.chain r.bi ≠ [] := fun hnil => by
        have := hpk.head_mem
        rw [hnil] at this
        cases this
      obtain ⟨j₁, herr⟩ := joinBuffers_spec_short firstBi hlen hne hpk.nodup hlast
      have htrim : trimOf j.vm firstBi r = trimOf vm firstBi r := by simp only [trimOf, hbuf]
      rw [joinRanges_cons hgood hoff, hchain, htrim, herr] at hok
      cases hok
    obtain ⟨j₁, kept₁, hstep, hj₁, -⟩ := h.step hs hfits hf hother
    rw [hstep] at hok
    have hin : firstBi ∈ buffersOf vm (before ++ [r]) := by
      rw [buffersOf_append]
      rcases eq_or_ne before [] with hb | hb
      · refine mem_append_right _ ?_
        rw [buffersOf_cons, buffersOf_nil, append_nil, ← (hf hb).1]
        exact (hs.packet r (by simp)).head_mem
      · exact mem_append_left _ (hother hb)
    have hrest := ih hj₁ (by simpa using hs) (fun hb => absurd hb (by simp)) (fun _ => hin) hok
    exact forall_mem_cons.mpr ⟨hfits, hrest⟩

theorem fits_of_finalize (hs : Stored vm (first :: rest)) (hoff : first.dataOffset = 0) {vm' : Vm}
    (h : ip4FullReassFinalize vm (first :: rest) = some (.ok, vm')) : ∀ r ∈ first :: rest, Fits vm r := by
  cases hjoin : joinRanges first.bi (first :: rest) { vm := vm, lastB := none, totalLength := 0 } with
  | error j => simp [ip4FullReassFinalize, hjoin] at h
  | ok j =>
    exact fits_of_joinRanges (Joining.start vm) hs (fun _ => ⟨first, rfl, rfl, hoff⟩)
      (fun hb => absurd rfl hb) hjoin

end Vpp.Ip
