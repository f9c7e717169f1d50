import Vpp.Ip.Reass.Ip4
import Vpp.Vlib.Linearize

/-! Joining the buffers of one range to what has been joined before.

    Of the buffers of a fragment, those in front of the kept data are dropped, those behind it are dropped,
    and those between are linked to the last buffer joined so far.

        dropped | kept                  | dropped
        [hdr ...] [..|#####] [#######] [##|...] [pad]
                     trim_front        keep_data                                                       -/

namespace Vpp.Ip
open Vpp.Schemes Vpp.Vlib List Option

variable {vm : Vm} {bi firstBi tf keep : ℕ} {l rest : List ℕ} {j j' : Joined}

/-! ### Dropping buffers -/

theorem sameOutside_dropBuffer (bi : ℕ) : SameOutside [bi] vm (dropBuffer vm bi) := by
  have hchain : (vm.modify bi fun b => { b with nextPresent := false, nextBuffer := 0 }).chain bi ⊆ [bi] := by
    rw [Vm.chain, nBuffers_modify]
    cases vm.nBuffers with
    | zero => exact nil_subset _
    | succ n =>
      rw [Vm.chainFrom, buffer_modify_self]
      exact Subset.refl _
  exact ((SameOutside.modify bi _).trans ((foldl_putBack _ _).1.mono hchain)).mono (by simp)

theorem sameOutside_dropBuffers (l : List ℕ) : SameOutside l vm (l.foldl dropBuffer vm) := by
  induction l generalizing vm with
  | nil => exact .refl _ _
  | cons i l ih => exact (sameOutside_dropBuffer i).trans ih

/-! ### The loop -/

theorem modify_advance_zero (vm : Vm) (bi : ℕ) : vm.modify bi (·.advance 0) = vm := by
  have hb : (vm.buffer bi).advance 0 = vm.buffer bi := by simp [VlibBuffer.advance]
  rw [Vm.modify, hb, Function.update_eq_self]

/-- Behind the kept data everything is dropped. -/
theorem joinBuffers_tail (h : firstBi ∉ l) :
    joinBuffers firstBi l j 0 0 = .ok { j with vm := l.foldl dropBuffer j.vm } := by
  induction l generalizing j with
  | nil => rfl
  | cons i l ih =>
    have hi : firstBi ≠ i := fun hi => h (hi ▸ mem_cons_self)
    have hl : firstBi ∉ l := fun hl => h (mem_cons_of_mem i hl)
    rw [joinBuffers, if_neg (Nat.not_lt_zero _), modify_advance_zero, if_neg (by simp), if_neg (Ne.symm hi), ih hl]
    rfl

/-- A buffer that the trimmed front ends in. -/
theorem joinBuffers_advance (h : tf ≤ (j.vm.buffer bi).currentLength) :
    joinBuffers firstBi (bi :: rest) j tf keep =
      joinBuffers firstBi (bi :: rest) { j with vm := j.vm.modify bi (·.advance tf) } 0 keep := by
  conv_lhs => rw [joinBuffers, if_neg (by omega)]
  conv_rhs => rw [joinBuffers, if_neg (Nat.not_lt_zero _), modify_advance_zero]

/-- Two states of a buffer that differ in its links only. -/
def SameButLinks (b b' : VlibBuffer) : Prop :=
  b' = { b with nextPresent := b'.nextPresent, nextBuffer := b'.nextBuffer }

theorem SameButLinks.refl (b : VlibBuffer) : SameButLinks b b := rfl

theorem SameButLinks.trans {b b' b'' : VlibBuffer} (h : SameButLinks b b') (h' : SameButLinks b' b'') :
    SameButLinks b b'' := by
  rw [SameButLinks] at *
  rw [h'] at *
  rw [h]

theorem SameButLinks.bytes {b b' : VlibBuffer} (h : SameButLinks b b') : b'.bytes = b.bytes := by
  rw [h]
  exact bytes_congr rfl rfl rfl

theorem SameButLinks.currentLength {b b' : VlibBuffer} (h : SameButLinks b b') :
    b'.currentLength = b.currentLength := by
  rw [h]

theorem SameButLinks.owned {b b' : VlibBuffer} {n : ℕ} (h : SameButLinks b b') (hown : Owned n b) : Owned n b' := by
  rw [h]
  exact ⟨hown.refCount, hown.headRoom, hown.area⟩

/-- What is joined of the buffers `l` of one range: `kept`, which hold `text`. -/
structure JoinedTo (l kept : List ℕ) (text : Bytes) (j j' : Joined) : Prop where
  sublist : kept.Sublist l
  linked : kept.IsChain (NextIs j'.vm.buffer)
  contents : j'.vm.contents kept = text
  lastB : j'.lastB = kept.getLast?
  totalLength : j'.totalLength = j.totalLength + text.length
  before : ∀ last, j.lastB = some last → ∃ head, kept.head? = some head ∧
    j'.vm.buffer last = { j.vm.buffer last with nextPresent := true, nextBuffer := head }
  same : SameOutside (l ++ j.lastB.toList) j.vm j'.vm
  owned : ∀ i ∈ kept, Owned j.vm.dataSize (j.vm.buffer i) → Owned j.vm.dataSize (j'.vm.buffer i)

theorem linkLast_some (vm : Vm) (last bi : ℕ) : linkLast vm (some last) bi =
    vm.modify last fun b => { b with nextPresent := true, nextBuffer := bi } := rfl

theorem linkLast_of_ne {lastB : Option ℕ} {i : ℕ} (h : i ∉ lastB.toList) :
    (linkLast vm lastB bi).buffer i = vm.buffer i := by
  cases lastB with
  | some last =>
    rw [linkLast_some]
    exact buffer_modify_of_ne (by simpa using h)
  | none => rfl

theorem linkLast_same (vm : Vm) (lastB : Option ℕ) (bi : ℕ) :
    SameOutside lastB.toList vm (linkLast vm lastB bi) := by
  cases lastB with
  | some last =>
    rw [linkLast_some]
    exact .modify last _
  | none => exact .refl _ _

/-- The loop at a buffer that holds kept data. -/
theorem joinBuffers_keep (hkeep : 0 < keep) (hlast : bi ∉ j.lastB.toList) :
    joinBuffers firstBi (bi :: rest) j 0 keep =
      if keep ≤ (j.vm.buffer bi).currentLength then
        joinBuffers firstBi rest
          { vm := (linkLast j.vm j.lastB bi).modify bi fun b => { b with currentLength := keep }, lastB := some bi
            totalLength := j.totalLength + keep } 0 0
      else if rest = [] then
        .error { vm := linkLast j.vm j.lastB bi, lastB := some bi, totalLength := j.totalLength }
      else
        joinBuffers firstBi rest
          { vm := linkLast j.vm j.lastB bi, lastB := some bi
            totalLength := j.totalLength + (j.vm.buffer bi).currentLength } 0
          (keep - (j.vm.buffer bi).currentLength) := by
  have hbi : (linkLast j.vm j.lastB bi).buffer bi = j.vm.buffer bi := linkLast_of_ne hlast
  rw [joinBuffers, if_neg (Nat.not_lt_zero _), modify_advance_zero, if_pos (by omega)]
  simp only [hbi]

section
variable {kept : List ℕ} {text : Bytes} (hbl : bi ∉ j.lastB.toList) (hbr : bi ∉ rest)
include hbl

/-- What is done to `bi` before the loop goes on does not matter to the buffers joined before. -/
theorem JoinedTo.of_same {vm₀ : Vm} {m : List ℕ} (hsame : SameOutside [bi] j.vm vm₀)
    (h : JoinedTo m kept text { j with vm := vm₀ } j') (hm : m.Sublist (bi :: rest))
    (hown : bi ∈ kept → Owned j.vm.dataSize (j.vm.buffer bi) → Owned j.vm.dataSize (vm₀.buffer bi)) :
    JoinedTo (bi :: rest) kept text j j' := by
  refine ⟨h.sublist.trans hm, h.linked, h.contents, h.lastB, h.totalLength, ?_, ?_, ?_⟩
  · intro last hl
    obtain ⟨head, hhead, hbuf⟩ := h.before last hl
    have hlb : last ∉ [bi] := by
      rw [mem_singleton]
      rintro rfl
      exact hbl (by simp [hl])
    exact ⟨head, hhead, by rw [hbuf, hsame.buffer last hlb]⟩
  · refine (hsame.trans h.same).mono ?_
    intro i hi
    rcases mem_append.mp hi with hi | hi
    · exact mem_append_left _ (mem_singleton.mp hi ▸ mem_cons_self)
    · exact (hm.append_right _).subset hi
  · intro i hi hi'
    have howned := h.owned i hi
    simp only [hsame.dataSize] at howned
    refine howned ?_
    rcases eq_or_ne i bi with rfl | hne
    · exact hown hi hi'
    · rw [hsame.buffer i (by simpa using hne)]
      exact hi'

variable (hlast : ∀ i ∈ rest, i ∉ j.lastB.toList)
include hbr hlast

/-- The whole of `bi` is kept, and the data goes on behind it. -/
theorem JoinedTo.cons
    (h : JoinedTo rest kept text
      ⟨linkLast j.vm j.lastB bi, some bi, j.totalLength + (j.vm.buffer bi).currentLength⟩ j') :
    JoinedTo (bi :: rest) (bi :: kept) ((j.vm.buffer bi).bytes ++ text) j j' ∧
      (j'.vm.buffer bi).currentLength = (j.vm.buffer bi).currentLength := by
  have hlsame := linkLast_same j.vm j.lastB bi
  obtain ⟨head, hhead, hbuf⟩ := h.before bi rfl
  simp only [linkLast_of_ne hbl] at hbuf
  have hbytes : (j'.vm.buffer bi).bytes = (j.vm.buffer bi).bytes := by
    rw [hbuf]
    exact bytes_congr rfl rfl rfl
  refine ⟨⟨h.sublist.cons_cons bi, ?_, ?_, ?_, ?_, ?_, ?_, ?_⟩, by rw [hbuf]⟩
  · cases kept with
    | nil => exact isChain_singleton bi
    | cons k kept =>
      obtain rfl : k = head := by simpa using hhead
      exact isChain_cons_cons.mpr ⟨⟨by rw [hbuf], by rw [hbuf]⟩, h.linked⟩
  · rw [contents_cons, hbytes, h.contents]
  · rw [h.lastB]
    cases kept with
    | nil => simp at hhead
    | cons k kept => simp [getLast?_cons_cons]
  · rw [h.totalLength, length_append, length_bytes, Nat.add_assoc]
  · intro last hl
    have hlm : last ∈ j.lastB.toList := by simp [hl]
    have hout : last ∉ rest ++ [bi] := by
      rw [mem_append, mem_singleton, not_or]
      exact ⟨fun hr => hlast last hr hlm, fun hb => hbl (hb ▸ hlm)⟩
    refine ⟨bi, rfl, (h.same.buffer last hout).trans ?_⟩
    rw [hl, linkLast_some, buffer_modify_self]
  · refine (hlsame.trans h.same).mono ?_
    intro i hi
    simp only [toList_some, mem_append, mem_cons] at hi ⊢
    tauto
  · intro i hi hown
    rcases mem_cons.mp hi with rfl | hi
    · rw [hbuf]
      exact ⟨hown.refCount, hown.headRoom, hown.area⟩
    · have howned := h.owned i hi
      simp only [hlsame.dataSize, linkLast_of_ne (hlast i (h.sublist.subset hi))] at howned
      exact howned hown

/-- The kept data ends in `bi`, and the buffers behind it are dropped. -/
theorem JoinedTo.ends (hends : keep ≤ (j.vm.buffer bi).currentLength) :
    JoinedTo (bi :: rest) [bi] ((j.vm.buffer bi).bytes.take keep) j
      ⟨rest.foldl dropBuffer ((linkLast j.vm j.lastB bi).modify bi fun b => { b with currentLength := keep }),
        some bi, j.totalLength + keep⟩ := by
  have hlsame := linkLast_same j.vm j.lastB bi
  set vm₂ := (linkLast j.vm j.lastB bi).modify bi fun b => { b with currentLength := keep } with hvm₂
  have hdsame := @sameOutside_dropBuffers vm₂ rest
  have hbuf : (rest.foldl dropBuffer vm₂).buffer bi = { j.vm.buffer bi with currentLength := keep } := by
    rw [hdsame.buffer bi hbr, hvm₂, buffer_modify_self, linkLast_of_ne hbl]
  refine ⟨by simp, isChain_singleton bi, ?_, rfl, ?_, ?_, ?_, ?_⟩
  · rw [contents_cons, contents_nil, append_nil, hbuf, bytes_cut _ hends]
  · rw [length_take, length_bytes, min_eq_left hends]
  · intro last hl
    have hlm : last ∈ j.lastB.toList := by simp [hl]
    have hlb : last ≠ bi := fun hb => hbl (hb ▸ hlm)
    refine ⟨bi, rfl, ?_⟩
    rw [hdsame.buffer last fun hr => hlast last hr hlm, hvm₂, buffer_modify_of_ne hlb, hl, linkLast_some,
      buffer_modify_self]
  · refine ((hlsame.trans (.modify bi _)).trans hdsame).mono ?_
    intro i hi
    simp only [mem_append, mem_cons] at hi ⊢
    tauto
  · intro i hi hown
    have harea := hown.area
    obtain rfl : i = bi := by simpa using hi
    rw [hbuf]
    exact ⟨hown.refCount, hown.headRoom, by simp only; omega⟩

end

/-- The kept data of one range from its first buffer on. -/
theorem joinBuffers_join (hkeep : 0 < keep) (hlen : keep ≤ (j.vm.contents l).length) (hnodup : l.Nodup)
    (hlast : ∀ i ∈ l, i ∉ j.lastB.toList) (hfirst : firstBi ∉ l.tail) :
    ∃ j' kept, joinBuffers firstBi l j 0 keep = .ok j' ∧
      JoinedTo l kept ((j.vm.contents l).take keep) j j' ∧ kept.head? = l.head? ∧
      ∀ i, l.head? = some i → (j'.vm.buffer i).currentLength = min (j.vm.buffer i).currentLength keep := by
  induction l generalizing j keep with
  | nil => simp at hlen; omega
  | cons bi rest ih =>
    obtain ⟨hbr, hnodup'⟩ := nodup_cons.mp hnodup
    have hbl := hlast bi mem_cons_self
    have hlast' : ∀ i ∈ rest, i ∉ j.lastB.toList := fun i hi => hlast i (mem_cons_of_mem bi hi)
    rw [contents_cons, length_append, length_bytes] at hlen
    rw [joinBuffers_keep hkeep hbl, contents_cons]
    rcases lt_or_ge (j.vm.buffer bi).currentLength keep with hmore | hends
    · have hne : rest ≠ [] := by
        rintro rfl
        simp at hlen
        omega
      have hrest : (linkLast j.vm j.lastB bi).contents rest = j.vm.contents rest :=
        (linkLast_same j.vm j.lastB bi).contents hlast'
      rw [if_neg (by omega), if_neg hne]
      obtain ⟨j', kept, hok, hj', -⟩ := ih
        (j := ⟨linkLast j.vm j.lastB bi, some bi, j.totalLength + (j.vm.buffer bi).currentLength⟩)
        (show 0 < keep - (j.vm.buffer bi).currentLength by omega) (by rw [hrest]; omega) hnodup'
        (fun i hi hb => hbr ((by simpa using hb : i = bi) ▸ hi)) (fun hmem => hfirst (mem_of_mem_tail hmem))
      obtain ⟨hjoined, hcl⟩ := hj'.cons hbl hbr hlast'
      have htext : (j.vm.buffer bi).bytes ++ (j.vm.contents rest).take (keep - (j.vm.buffer bi).currentLength) =
          ((j.vm.buffer bi).bytes ++ j.vm.contents rest).take keep := by
        have hall : (j.vm.buffer bi).bytes.take keep = (j.vm.buffer bi).bytes :=
          take_of_length_le (by rw [length_bytes]; omega)
        rw [take_append, hall, length_bytes]
      rw [hrest, htext] at hjoined
      refine ⟨j', bi :: kept, hok, hjoined, rfl, fun i hi => ?_⟩
      obtain rfl : bi = i := by simpa using hi
      omega
    · rw [if_pos hends, joinBuffers_tail (by simpa using hfirst)]
      have hjoined := JoinedTo.ends hbl hbr hlast' hends
      rw [take_append_of_le_length (by rw [length_bytes]; exact hends)]
      refine ⟨_, [bi], rfl, hjoined, rfl, fun i hi => ?_⟩
      obtain rfl : bi = i := by simpa using hi
      have hcl := congrArg length hjoined.contents
      rw [contents_cons, contents_nil, append_nil, length_bytes, length_take, length_bytes] at hcl
      rw [hcl, min_comm]

/-- Where the buffers hold less than is to be kept, the loop fails. -/
theorem joinBuffers_short (hkeep : (j.vm.contents l).length < keep) (hne : l ≠ []) (hnodup : l.Nodup)
    (hlast : ∀ i ∈ l, i ∉ j.lastB.toList) : ∃ j', joinBuffers firstBi l j 0 keep = .error j' := by
  induction l generalizing j keep with
  | nil => exact absurd rfl hne
  | cons bi rest ih =>
    obtain ⟨hbr, hnodup'⟩ := nodup_cons.mp hnodup
    have hlsame := linkLast_same j.vm j.lastB bi
    rw [contents_cons, length_append, length_bytes] at hkeep
    rw [joinBuffers_keep (by omega) (hlast bi mem_cons_self), if_neg (by omega)]
    rcases eq_or_ne rest [] with rfl | hrest
    · exact ⟨_, if_pos rfl⟩
    · rw [if_neg hrest]
      refine ih ?_ hrest hnodup' ?_
      · have hc : (linkLast j.vm j.lastB bi).contents rest = j.vm.contents rest :=
          hlsame.contents fun i hi hil => hlast i (mem_cons_of_mem bi hi) hil
        simp only [hc]
        omega
      · intro i hi
        simp only [toList_some, mem_singleton]
        rintro rfl
        exact hbr hi

/-! ### With the front trimmed -/

/-- Dropping a whole buffer of the front. -/
theorem joinBuffers_drop (htf : (j.vm.buffer bi).currentLength < tf) (hne : rest ≠ []) :
    joinBuffers firstBi (bi :: rest) j tf keep =
      joinBuffers firstBi rest { j with vm := dropBuffer j.vm bi } (tf - (j.vm.buffer bi).currentLength) keep := by
  rw [joinBuffers, if_pos htf, if_neg hne]

/-- One range is joined. -/
theorem joinBuffers_spec (hkeep : 0 < keep) (hlen : tf + keep ≤ (j.vm.contents l).length) (hnodup : l.Nodup)
    (hlast : ∀ i ∈ l, i ∉ j.lastB.toList) (hfirst : firstBi ∉ l.tail) :
    ∃ j' kept, joinBuffers firstBi l j tf keep = .ok j' ∧
      JoinedTo l kept (((j.vm.contents l).drop tf).take keep) j j' ∧ (tf = 0 → kept.head? = l.head? ∧
        ∀ i, l.head? = some i → (j'.vm.buffer i).currentLength = min (j.vm.buffer i).currentLength keep) := by
  induction l generalizing j tf with
  | nil => simp at hlen; omega
  | cons bi rest ih =>
    obtain ⟨hbr, hnodup'⟩ := nodup_cons.mp hnodup
    have hbl := hlast bi mem_cons_self
    have hlen' := hlen
    rw [contents_cons, length_append, length_bytes] at hlen'
    rcases lt_or_ge (j.vm.buffer bi).currentLength tf with hdrop | hadv
    · have hne : rest ≠ [] := by
        rintro rfl
        simp at hlen'
        omega
      have hdsame := @sameOutside_dropBuffer j.vm bi
      have hrest : (dropBuffer j.vm bi).contents rest = j.vm.contents rest :=
        hdsame.contents (by simpa using hbr)
      obtain ⟨j', kept, hok, hj', -⟩ := ih (j := { j with vm := dropBuffer j.vm bi })
        (show tf - (j.vm.buffer bi).currentLength + keep ≤ _ by rw [hrest]; omega) hnodup'
        (fun i hi => hlast i (mem_cons_of_mem bi hi)) (fun hmem => hfirst (mem_of_mem_tail hmem))
      have htext : (j.vm.contents (bi :: rest)).drop tf =
          ((dropBuffer j.vm bi).contents rest).drop (tf - (j.vm.buffer bi).currentLength) := by
        rw [hrest, contents_cons, drop_append, drop_of_length_le (by rw [length_bytes]; omega), length_bytes,
          nil_append]
      rw [joinBuffers_drop hdrop hne, htext]
      refine ⟨j', kept, hok, ?_, fun h0 => by omega⟩
      exact .of_same hbl hdsame hj' (sublist_cons_self bi rest) fun hbi => absurd (hj'.sublist.subset hbi) hbr
    · -- the kept data starts in this buffer
      rw [joinBuffers_advance hadv]
      set vm₁ := j.vm.modify bi (·.advance tf) with hvm₁
      have hbuf : vm₁.buffer bi = (j.vm.buffer bi).advance tf := buffer_modify_self
      have hmod : SameOutside [bi] j.vm vm₁ := .modify bi _
      have htext : vm₁.contents (bi :: rest) = (j.vm.contents (bi :: rest)).drop tf := by
        rw [contents_cons, contents_cons, hbuf, bytes_advance, hmod.contents (by simpa using hbr),
          drop_append_of_le_length (by rw [length_bytes]; exact hadv)]
      obtain ⟨j', kept, hok, hj', hhead⟩ := joinBuffers_join (j := { j with vm := vm₁ }) hkeep
        (show keep ≤ (vm₁.contents (bi :: rest)).length by rw [htext, length_drop]; omega) hnodup hlast hfirst
      rw [← htext]
      refine ⟨j', kept, hok, .of_same hbl hmod hj' (Sublist.refl _) fun _ hown => ?_, fun h0 =>
        ⟨hhead.1, fun i hi => ?_⟩⟩
      · have hroom := hown.headRoom
        have harea := hown.area
        rw [hbuf]
        exact ⟨hown.refCount, by simp only [VlibBuffer.advance]; omega, by simp only [VlibBuffer.advance]; omega⟩
      · obtain rfl : bi = i := by simpa using hi
        have hcl := hhead.2 bi rfl
        simp only [hbuf, VlibBuffer.advance, h0, Nat.sub_zero] at hcl
        exact hcl

/-- Where the buffers hold less than is to be trimmed and kept, the loop fails. -/
theorem joinBuffers_spec_short (firstBi : ℕ) (hlen : (j.vm.contents l).length < tf + keep) (hne : l ≠ [])
    (hnodup : l.Nodup) (hlast : ∀ i ∈ l, i ∉ j.lastB.toList) :
    ∃ j', joinBuffers firstBi l j tf keep = .error j' := by
  induction l generalizing j tf with
  | nil => exact absurd rfl hne
  | cons bi rest ih =>
    obtain ⟨hbr, hnodup'⟩ := nodup_cons.mp hnodup
    have hlen' := hlen
    rw [contents_cons, length_append, length_bytes] at hlen'
    rcases lt_or_ge (j.vm.buffer bi).currentLength tf with hdrop | hadv
    · rcases eq_or_ne rest [] with rfl | hrest
      · exact ⟨j, by rw [joinBuffers, if_pos hdrop, if_pos rfl]⟩
      · have hc : (dropBuffer j.vm bi).contents rest = j.vm.contents rest :=
          (sameOutside_dropBuffer bi).contents (by simpa using hbr)
        rw [joinBuffers_drop hdrop hrest]
        exact ih (by simp only [hc]; omega) hrest hnodup' (fun i hi => hlast i (mem_cons_of_mem bi hi))
    · rw [joinBuffers_advance hadv]
      set vm₁ := j.vm.modify bi (·.advance tf) with hvm₁
      have hbuf : vm₁.buffer bi = (j.vm.buffer bi).advance tf := buffer_modify_self
      have hcr : vm₁.contents rest = j.vm.contents rest :=
        contents_congr fun i hi => buffer_modify_of_ne fun hib => hbr (hib ▸ hi)
      refine joinBuffers_short ?_ hne hnodup hlast
      simp only [contents_cons, hbuf, bytes_advance, hcr, length_append, length_drop, length_bytes]
      omega

end Vpp.Ip
