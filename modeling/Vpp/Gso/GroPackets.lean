import Vpp.Gso.Gro
import Vpp.Vlib.Chain

/-! What the operations of the flow table do to packets.

    None of them changes what a packet holds, but for the headers: a length is counted (`Whole.countLength`), a packet
    is chained behind another without its headers (`groMergeBuffers_spec`), and three fields of the headers are
    written when a packet leaves the table (`Merged`). -/

namespace Vpp.Gso
open Vpp.Schemes Vpp.Vlib List
open VlibBuffer (nextBuffer nextPresent)

variable {vm vm' : Vm} {bi bj : ℕ} {l m : List ℕ} {b b' : VlibBuffer}

/-- The two buffers hold the same. -/
structure SameBytes (b b' : VlibBuffer) : Prop where
  current : b'.current = b.current
  length : b'.currentLength = b.currentLength

theorem SameBytes.refl (b : VlibBuffer) : SameBytes b b := ⟨rfl, rfl⟩

theorem SameBytes.trans {b'' : VlibBuffer} (h : SameBytes b b') (h' : SameBytes b' b'') : SameBytes b b'' :=
  ⟨h'.current.trans h.current, h'.length.trans h.length⟩

theorem SameBytes.bytes (h : SameBytes b b') : b'.bytes = b.bytes := by
  rw [VlibBuffer.bytes, VlibBuffer.bytes, h.current, h.length]

theorem SameBytes.headerOffsets (h : SameBytes b b') (v : VnetBuffer) (isL2 : Bool) :
    headerOffsets b' v isL2 = headerOffsets b v isL2 := by
  have hversion : groIsIp4OrIp6Packet b' v isL2 = groIsIp4OrIp6Packet b v isL2 := by
    simp only [groIsIp4OrIp6Packet, ethernetType, be_congr h.current]
  rw [Gso.headerOffsets, Gso.headerOffsets, hversion]
  cases groIsIp4OrIp6Packet b v isL2 with
  | none => rfl
  | some version => exact vnetGenericHeaderOffsetParser_congr h.current _ _ _

/-! ### Lengths -/

/-- A packet whose length is told right. -/
structure Whole (vm : Vm) (bi : ℕ) (l : List ℕ) : Prop where
  packet : Packet vm bi l
  length : vm.vlibBufferLengthInChain bi = (vm.contents l).length
  lt : (vm.contents l).length < 2 ^ 32

theorem Whole.congr (h : Whole vm bi l) (hs : SameOutside m vm vm') (hd : l.Disjoint m) : Whole vm' bi l := by
  have hcontents : vm'.contents l = vm.contents l := hs.contents hd
  have hpacket := h.packet.congr hs hd
  have hbuffer : vm'.buffer bi = vm.buffer bi := hs.buffer bi (hd h.packet.head_mem)
  refine ⟨hpacket, ?_, by rw [hcontents]; exact h.lt⟩
  rw [hcontents, ← h.length]
  obtain ⟨rest, rfl⟩ := h.packet.exists_cons
  have hrest : vm'.contents rest = vm.contents rest := hs.contents fun i hi => hd (mem_cons_of_mem bi hi)
  rw [hpacket.lengthInChain_eq, h.packet.lengthInChain_eq, hbuffer, hrest]

/-- What counting a length leaves. -/
structure CountedFrom (vm : Vm) (bi : ℕ) (vm' : Vm) : Prop where
  bytes : ∀ i, SameBytes (vm.buffer i) (vm'.buffer i)
  links : ∀ i, (vm'.buffer i).nextPresent = (vm.buffer i).nextPresent ∧
    (vm'.buffer i).nextBuffer = (vm.buffer i).nextBuffer
  same : SameOutside [bi] vm vm'
  valid : (vm'.buffer bi).nextPresent = true → (vm'.buffer bi).totalLengthValid = true

theorem countLength_from (vm : Vm) (bi : ℕ) : CountedFrom vm bi (countLength vm bi) := by
  unfold countLength
  split
  · next h =>
    refine ⟨fun i => ?_, fun i => ?_, .modify _ _, fun _ => by rw [buffer_modify_self]⟩ <;>
      rcases eq_or_ne i bi with rfl | hne
    · rw [buffer_modify_self]
      exact ⟨rfl, rfl⟩
    · rw [buffer_modify_of_ne hne]
      exact SameBytes.refl _
    · rw [buffer_modify_self]
      exact ⟨rfl, rfl⟩
    · rw [buffer_modify_of_ne hne]
      exact ⟨rfl, rfl⟩
  · next h =>
    refine ⟨fun i => SameBytes.refl _, fun i => ⟨rfl, rfl⟩, .refl _ _, fun hnext => ?_⟩
    rw [hnext, Bool.true_and, Bool.not_eq_true, Bool.not_eq_false_eq_eq_true] at h
    exact h

theorem CountedFrom.contents (h : CountedFrom vm bi vm') (l : List ℕ) : vm'.contents l = vm.contents l :=
  contents_congr_bytes fun i _ => (h.bytes i).bytes

theorem CountedFrom.packet (h : CountedFrom vm bi vm') (hp : Packet vm bj l) : Packet vm' bj l :=
  hp.of_links h.same.nBuffers fun i _ => h.links i

theorem Whole.countLength (h : Whole vm bi l) : Whole (countLength vm bi) bi l := by
  have hfrom := countLength_from vm bi
  refine ⟨hfrom.packet h.packet, ?_, by rw [hfrom.contents]; exact h.lt⟩
  rw [hfrom.contents]
  obtain ⟨rest, rfl⟩ := h.packet.exists_cons
  have hlen := h.length
  have hlt := h.lt
  rw [contents_cons, length_append, length_bytes] at hlen hlt ⊢
  rw [(hfrom.packet h.packet).lengthInChain_eq, (hfrom.bytes bi).length, hfrom.contents]
  unfold Gso.countLength
  split
  · next hcount =>
    rw [buffer_modify_self]
    simp only [Bool.and_eq_true, Bool.not_eq_true'] at hcount
    rw [if_pos (by simp [hcount.1])]
    simp only [hlen]
    omega
  · rw [h.packet.lengthInChain_eq] at hlen
    omega

/-! ### Chaining a packet behind another -/

theorem sameBytes_modify {f : VlibBuffer → VlibBuffer} (hf : ∀ b, SameBytes b (f b)) (i j : ℕ) :
    SameBytes (vm.buffer j) ((vm.modify i f).buffer j) :=
  ⟨field_modify (fun b => (hf b).current) i j, field_modify (fun b => (hf b).length) i j⟩

theorem startTotal_same (b : VlibBuffer) : SameBytes b (startTotal b) ∧
    (startTotal b).nextPresent = b.nextPresent ∧ (startTotal b).nextBuffer = b.nextBuffer := by
  unfold startTotal
  split
  · exact ⟨SameBytes.refl b, rfl, rfl⟩
  · exact ⟨⟨rfl, rfl⟩, rfl, rfl⟩

/-- `gro_merge_buffers` for a packet whose last buffer is known. -/
theorem groMergeBuffers_eq {init : List ℕ} {last payloadLen n : ℕ} (h : Packet vm bi (init ++ [last])) :
    groMergeBuffers vm bi bj payloadLen n = (((vm.modify bi startTotal).modify bj (·.advance n)).modify last
      (linkTo bj)).modify bi (addTotal payloadLen) := by
  have hpacket : Packet (vm.modify bi startTotal) bi (init ++ [last]) :=
    h.modify (startTotal_same _).2.1 (startTotal_same _).2.2
  simp only [groMergeBuffers, hpacket.chain_eq, getLast?_concat, Option.getD_some]

/-- What chaining leaves, buffer by buffer. -/
structure ChainedFrom (vm : Vm) (bi bj last n payloadLen : ℕ) (vm' : Vm) : Prop where
  bytes : ∀ i, i ≠ bj → SameBytes (vm.buffer i) (vm'.buffer i)
  front : vm'.buffer bj = (vm.buffer bj).advance n
  links : ∀ i, i ≠ last → (vm'.buffer i).nextPresent = (vm.buffer i).nextPresent ∧
    (vm'.buffer i).nextBuffer = (vm.buffer i).nextBuffer
  next : NextIs vm'.buffer last bj
  total : (vm'.buffer bi).totalLengthNotIncludingFirstBuffer =
    (if (vm.buffer bi).nextPresent then (vm.buffer bi).totalLengthNotIncludingFirstBuffer else 0) + payloadLen
  valid : (vm'.buffer bi).totalLengthValid = true
  same : SameOutside [bi, bj, last] vm vm'

theorem groMergeBuffers_from {init : List ℕ} {last payloadLen n : ℕ} (h : Packet vm bi (init ++ [last]))
    (hbj : bj ∉ init ++ [last]) :
    ChainedFrom vm bi bj last n payloadLen (groMergeBuffers vm bi bj payloadLen n) := by
  have hbi : bi ≠ bj := fun hc => hbj (hc ▸ h.head_mem)
  have hlast : bj ≠ last := fun hc => hbj (by simp [hc])
  rw [groMergeBuffers_eq h]
  refine ⟨fun i hi => ?_, ?_, fun i hi => ⟨?_, ?_⟩, ⟨?_, ?_⟩, ?_, ?_, ?_⟩
  · have h₁ : SameBytes (vm.buffer i) ((vm.modify bi startTotal).buffer i) :=
      sameBytes_modify (fun b => (startTotal_same b).1) bi i
    have h₂ : ((vm.modify bi startTotal).modify bj (·.advance n)).buffer i = (vm.modify bi startTotal).buffer i :=
      buffer_modify_of_ne hi
    rw [← h₂] at h₁
    exact (h₁.trans (sameBytes_modify (f := linkTo bj) (fun b => ⟨rfl, rfl⟩) last i)).trans
      (sameBytes_modify (f := addTotal payloadLen) (fun b => ⟨rfl, rfl⟩) bi i)
  · rw [buffer_modify_of_ne hbi.symm, buffer_modify_of_ne hlast, buffer_modify_self, buffer_modify_of_ne hbi.symm]
  · rw [field_modify (g := nextPresent) (fun b => by rfl), buffer_modify_of_ne hi,
      field_modify (g := nextPresent) (fun b => by rfl),
      field_modify (g := nextPresent) fun b => (startTotal_same b).2.1]
  · rw [field_modify (g := nextBuffer) (fun b => by rfl), buffer_modify_of_ne hi,
      field_modify (g := nextBuffer) (fun b => by rfl),
      field_modify (g := nextBuffer) fun b => (startTotal_same b).2.2]
  · rw [field_modify (g := nextPresent) (fun b => by rfl), buffer_modify_self]
    rfl
  · rw [field_modify (g := nextBuffer) (fun b => by rfl), buffer_modify_self]
    rfl
  · have htotal : (startTotal (vm.buffer bi)).totalLengthNotIncludingFirstBuffer =
        if (vm.buffer bi).nextPresent then (vm.buffer bi).totalLengthNotIncludingFirstBuffer else 0 := by
      unfold startTotal
      split <;> rfl
    rw [buffer_modify_self, addTotal, field_modify (g := VlibBuffer.totalLengthNotIncludingFirstBuffer) fun b => by rfl,
      field_modify (g := VlibBuffer.totalLengthNotIncludingFirstBuffer) fun b => by rfl, buffer_modify_self, htotal]
  · rw [buffer_modify_self]
    rfl
  · exact ((((SameOutside.modify bi _).trans (SameOutside.modify bj _)).trans (SameOutside.modify last _)).trans
      (.modify bi _)).mono (by simp)

/-- `gro_merge_buffers` chains a packet, without `n` bytes at its front, behind another one. -/
theorem groMergeBuffers_spec {n payloadLen : ℕ} (h : Whole vm bi l) (hj : Packet vm bj m) (hd : l.Disjoint m)
    (hvalid : (vm.buffer bi).nextPresent = true → (vm.buffer bi).totalLengthValid = true)
    (hn : n ≤ (vm.buffer bj).currentLength) (hp : payloadLen = (vm.contents m).length - n)
    (hlt : (vm.contents l).length + payloadLen < 2 ^ 32) :
    Whole (groMergeBuffers vm bi bj payloadLen n) bi (l ++ m) ∧
    (groMergeBuffers vm bi bj payloadLen n).contents (l ++ m) = vm.contents l ++ (vm.contents m).drop n ∧
    SameBytes (vm.buffer bi) ((groMergeBuffers vm bi bj payloadLen n).buffer bi) ∧
    SameOutside (l ++ m) vm (groMergeBuffers vm bi bj payloadLen n) := by
  obtain ⟨rest, hrest⟩ := h.packet.exists_cons
  obtain ⟨init, last, rfl⟩ : ∃ init last, l = init ++ [last] :=
    ⟨_, _, (dropLast_append_getLast (by simp [hrest])).symm⟩
  obtain ⟨tail, rfl⟩ := hj.exists_cons
  have hfrom : ChainedFrom vm bi bj last n payloadLen (groMergeBuffers vm bi bj payloadLen n) :=
    groMergeBuffers_from h.packet fun hc => hd hc mem_cons_self
  generalize groMergeBuffers vm bi bj payloadLen n = vm' at hfrom ⊢
  have hbj : ∀ i ∈ init ++ [last], i ≠ bj := fun i hi hc => hd hi (by rw [hc]; exact mem_cons_self)
  have hpacket : Packet vm' bi (init ++ [last] ++ (bj :: tail)) := by
    refine h.packet.join hj hd hfrom.same.nBuffers hfrom.next fun i hi => hfrom.links i ?_
    rintro rfl
    rcases mem_append.mp hi with hi | hi
    · exact disjoint_of_nodup_append h.packet.nodup hi (by simp)
    · exact hd (by simp) hi
  have hbehind : vm'.contents (bj :: tail) = (vm.contents (bj :: tail)).drop n := by
    rw [contents_cons, hfrom.front, bytes_advance, contents_cons,
      drop_append_of_le_length (by rw [length_bytes]; exact hn)]
    congr 1
    refine contents_congr_bytes fun i hi => (hfrom.bytes i ?_).bytes
    rintro rfl
    exact (nodup_cons.mp hj.nodup).1 hi
  have hkept : ∀ k, k ⊆ init ++ [last] → vm'.contents k = vm.contents k := fun k hk =>
    contents_congr_bytes fun i hi => (hfrom.bytes i (hbj i (hk hi))).bytes
  have hcontents : vm'.contents (init ++ [last] ++ (bj :: tail)) =
      vm.contents (init ++ [last]) ++ (vm.contents (bj :: tail)).drop n := by
    rw [contents_append, hkept _ (List.Subset.refl _), hbehind]
  refine ⟨⟨hpacket, ?_, ?_⟩, hcontents, hfrom.bytes bi (hbj bi h.packet.head_mem), hfrom.same.mono ?_⟩
  · -- the total length is that of the buffers that were there and of those that come
    have hlen := h.length
    rw [hrest] at hkept
    rw [hrest] at h hpacket hlen hlt ⊢
    rw [h.packet.lengthInChain_eq, contents_cons, length_append, length_bytes, Nat.add_right_inj] at hlen
    rw [contents_cons, length_append, length_bytes] at hlt
    rw [cons_append] at hpacket ⊢
    have hpresent : (vm'.buffer bi).nextPresent = true := by
      rw [← Bool.not_eq_false, hpacket.rest_eq_nil]
      simp
    rw [hpacket.lengthInChain_eq, hpresent, hfrom.valid, hfrom.total, contents_cons, length_append, length_bytes,
      contents_append, hbehind, hkept rest (subset_cons_self bi rest), length_append, length_drop, ← hp,
      Bool.and_true, if_pos rfl, Nat.add_right_inj]
    cases hnext : (vm.buffer bi).nextPresent with
    | true =>
      rw [hnext, hvalid hnext, Bool.and_true, if_pos rfl] at hlen
      rw [if_pos rfl]
      omega
    | false =>
      rw [if_neg Bool.false_ne_true, h.packet.rest_eq_nil.mp hnext, contents_nil, length_nil]
      omega
  · rw [hcontents, length_append, length_drop, ← hp]
    exact hlt
  · intro i hi
    simp only [mem_cons, not_mem_nil, or_false] at hi
    rcases hi with rfl | rfl | rfl
    · exact mem_append_left _ h.packet.head_mem
    · simp
    · simp

end Vpp.Gso
