import Vpp.Gso.GroMerged
import Vpp.Schemes.Run

/-! Where packets are while a flow table is in use.

    Every packet that has come is in one of three places, and the places are accounted for as multisets of packets:

        arrived  =  held by the slots  +  in the packets returned

    A packet returned is one that came, or is made of several. A slot holds a packet that is made of those it holds
    (`SlotHolds`); the packets of different slots have no buffer in common. -/

namespace Vpp.Gso
open Vpp.Schemes Vpp.Vlib Function Finset GroFlowTable Option Bool GroFlowKey GroFlow Output

/-! ### Places -/

/-- A packet that was returned as it came, without its padding perhaps. -/
structure Unchanged (isL2 : Bool) (o : Output) (a : Arrival) : Prop where
  bi : o.bi = a.bi
  packet : Packet o.vm a.bi a.chain
  contents : o.contents = a.contents ∨ (a.contents.length ≤ groPaddedPacketSize ∧ (a.gho isL2).tcp = true ∧
    o.contents = a.contents.take (a.ipEnd isL2))
  vnet : o.vnet = a.vnet

/-- What a packet returned is. -/
inductive Place where
  | unchanged (a : Arrival)
  | merged (p : Arrival) (rest : List Arrival)

open Place

def Place.packets : Place → List Arrival
  | .unchanged a => [a]
  | .merged p rest => p :: rest

def PlaceIs (isL2 : Bool) (o : Output) : Place → Prop
  | .unchanged a => Unchanged isL2 o a
  | .merged p rest => Merged isL2 o p rest

/-- What a slot holds. -/
def SlotHolds (isL2 : Bool) (vm : Vm) (vnet : ℕ → VnetBuffer) (flow : GroFlow) : List Arrival → Prop
  | [] => flow.nBuffers = 0 ∧ groFlowIsEqual flow.flowKey zero = true
  | p :: rest => flow.bufferIndex = p.bi ∧ flow.nBuffers = rest.length + 1 ∧
      groFlowIsEqual (p.flowKey isL2) flow.flowKey = true ∧ Coalesced isL2 vm vnet p rest

abbrev Held := Fin groFlowTableMaxSize → List Arrival

/-- What the slots of the table hold. -/
structure Holds (isL2 : Bool) (s : GroMain) (held : Held) : Prop where
  layer : s.table.isL2 = isL2
  slots : ∀ i, SlotHolds isL2 s.vm s.vnet (s.table.groFlow i) (held i)
  apart : ∀ i j, i ≠ j → (buffersOf (held i)).Disjoint (buffersOf (held j))
  size : s.table.flowTableSize = (univ.filter fun i => (s.table.groFlow i).nBuffers ≠ 0).card

/-- The buffers written to `to`, as they are then. -/
def GroMain.outputs (s : GroMain) (to' : List ℕ) : List Output := to'.map fun bi => ⟨bi, s.vm, s.vnet bi⟩

variable {isL2 : Bool} {s s' : GroMain} {held : Held} {a p : Arrival} {rest ps : List Arrival} {vm vm' : Vm}
    {m : List ℕ} {vnet : ℕ → VnetBuffer}

/-! ### Slots -/

theorem sum_update {ι γ M : Type*} [Fintype ι] [DecidableEq ι] [AddCommMonoid M] (g : γ → M)
    (f : ι → γ) (i : ι)
    (x : γ) : ∑ k, g (update f i x k) + g (f i) = ∑ k, g (f k) + g x := by
  rw [← add_sum_erase _ _ (mem_univ i), ← add_sum_erase _ (fun k => g (f k)) (mem_univ i),
    update_self]
  have hrest : ∑ k ∈ univ.erase i, g (update f i x k) = ∑ k ∈ univ.erase i, g (f k) :=
    sum_congr rfl fun k hk => by rw [update_of_ne (ne_of_mem_erase hk)]
  rw [hrest, add_right_comm, add_comm (g x), add_right_comm]

/-- The number of slots that hold something, after one of them has changed. -/
theorem card_update (f : Fin groFlowTableMaxSize → GroFlow) (i : Fin groFlowTableMaxSize) (flow : GroFlow) :
    (univ.filter fun k => (update f i flow k).nBuffers ≠ 0).card +
        (if (f i).nBuffers ≠ 0 then 1 else 0) =
      (univ.filter fun k => (f k).nBuffers ≠ 0).card + if flow.nBuffers ≠ 0 then 1 else 0 := by
  rw [card_filter, card_filter]
  exact sum_update (fun fl : GroFlow => if fl.nBuffers ≠ 0 then 1 else 0) f i flow

theorem SlotHolds.congr {flow : GroFlow} {vnet' : ℕ → VnetBuffer}
    (h : SlotHolds isL2 vm vnet flow ps) (hs : SameOutside m vm vm')
    (hv : ∀ i, i ∉ m → vnet' i = vnet i) (hd : (buffersOf ps).Disjoint m) : SlotHolds isL2 vm' vnet' flow ps := by
  cases ps with
  | nil => exact h
  | cons p rest => exact ⟨h.1, h.2.1, h.2.2.1, h.2.2.2.congr hs hv hd⟩

theorem SlotHolds.nBuffers {flow : GroFlow} (h : SlotHolds isL2 vm vnet flow ps) : flow.nBuffers = ps.length := by
  cases ps with
  | nil => exact h.1
  | cons p rest => exact h.2.1

/-- Buffers that no slot has may change. -/
theorem Holds.frame {c : List ℕ} (h : Holds isL2 s held) (htable : s'.table = s.table) (hs : SameOutside c s.vm s'.vm)
    (hv : ∀ i, i ∉ c → s'.vnet i = s.vnet i) (hc : ∀ i, (buffersOf (held i)).Disjoint c) :
    Holds isL2 s' held where
  layer := by rw [htable]; exact h.layer
  slots i := by rw [htable]; exact (h.slots i).congr hs hv (hc i)
  apart := h.apart
  size := by rw [htable]; exact h.size

/-- One slot changes, and its buffers with it. -/
theorem Holds.update {c : List ℕ} {i : Fin groFlowTableMaxSize} (h : Holds isL2 s held)
    (flow : GroFlow) (hL2 : s'.table.isL2 = isL2)
    (hflow : s'.table.groFlow = update s.table.groFlow i flow)
    (hsize : s'.table.flowTableSize + (if (s.table.groFlow i).nBuffers ≠ 0 then 1 else 0) =
      s.table.flowTableSize + if flow.nBuffers ≠ 0 then 1 else 0)
    (hs : SameOutside (buffersOf (held i) ++ c) s.vm s'.vm)
    (hv : ∀ k, k ∉ buffersOf (held i) ++ c → s'.vnet k = s.vnet k)
    (hc : ∀ j, (buffersOf (held j)).Disjoint c) (hslot : SlotHolds isL2 s'.vm s'.vnet flow ps)
    (hps : buffersOf ps ⊆ buffersOf (held i) ++ c) :
    Holds isL2 s' (update held i ps) := by
  have hd : ∀ j, j ≠ i → (buffersOf (held j)).Disjoint (buffersOf (held i) ++ c) := fun j hj =>
    List.disjoint_append_right.mpr ⟨h.apart j i hj, hc j⟩
  refine ⟨hL2, fun j => ?_, fun j k hjk => ?_, ?_⟩
  · rw [hflow]
    rcases eq_or_ne j i with rfl | hj
    · rw [update_self, update_self]
      exact hslot
    · rw [update_of_ne hj, update_of_ne hj]
      exact (h.slots j).congr hs hv (hd j hj)
  · rcases eq_or_ne j i with rfl | hj
    · rw [update_self, update_of_ne hjk.symm]
      exact (List.disjoint_of_subset_right hps (hd k hjk.symm)).symm
    · rw [update_of_ne hj]
      rcases eq_or_ne k i with rfl | hk
      · rw [update_self]
        exact List.disjoint_of_subset_right hps (hd j hj)
      · rw [update_of_ne hk]
        exact h.apart j k hjk
  · have hcard := card_update s.table.groFlow i flow
    rw [← h.size] at hcard
    rw [hflow]
    omega

/-! ### What a step moves -/

/-- All packets that the slots hold. -/
def total (held : Held) : Multiset Arrival := ∑ i, (held i : Multiset Arrival)

/-- The packets of one slot, and what else there is, are distributed anew. -/
theorem total_update {i : Fin groFlowTableMaxSize} {come gone : List Arrival}
    (h : (held i ++ come : Multiset Arrival) = (ps ++ gone : List Arrival)) :
    total (update held i ps) + gone = total held + come := by
  have hsum := sum_update (fun ps : List Arrival => (ps : Multiset Arrival)) held i ps
  rw [← Multiset.coe_add, ← Multiset.coe_add] at h
  apply add_right_cancel (b := (held i : Multiset Arrival))
  rw [total, total, add_right_comm, hsum, add_assoc, ← h, add_assoc, add_comm (come : Multiset Arrival)]

/-- The table has come to hold `held'`, after `come` have come and `places` have left. -/
structure Moved (isL2 : Bool) (held : Held) (come : List Arrival) (r : GroMain × List ℕ) (held' : Held)
    (places : List Place) : Prop where
  holds : Holds isL2 r.1 held'
  outs : List.Forall₂ (PlaceIs isL2) (r.1.outputs r.2) places
  sum : total held' + (places.flatMap packets : List Arrival) = total held + come

section
variable {i : Fin groFlowTableMaxSize} {pktLen : ℕ}

section
variable (h : Holds isL2 s held) (hi : held i = p :: rest)
include h hi

theorem Holds.slot : (s.table.groFlow i).bufferIndex = p.bi ∧
    (s.table.groFlow i).nBuffers = rest.length + 1 ∧
    groFlowIsEqual (p.flowKey isL2) (s.table.groFlow i).flowKey = true ∧ Coalesced isL2 s.vm s.vnet p rest := by
  have hslot := h.slots i
  rwa [hi] at hslot

theorem Holds.size_pos : 0 < s.table.flowTableSize := by
  rw [h.size, card_pos]
  exact ⟨i, by simp [(h.slot hi).2.1]⟩

/-- The slot is reset. -/
theorem Holds.emptied {c : List ℕ}
    (htable : s'.table = { s.table.setFlow i zero with flowTableSize := s.table.flowTableSize - 1 })
    (hs : SameOutside (buffersOf (held i) ++ c) s.vm s'.vm)
    (hv : ∀ k, k ∉ buffersOf (held i) ++ c → s'.vnet k = s.vnet k) (hc : ∀ j, (buffersOf (held j)).Disjoint c) :
    Holds isL2 s' (Function.update held i []) := by
  have hpos := h.size_pos hi
  have hfull := (h.slot hi).2.1
  refine h.update zero (by rw [htable]; exact h.layer) (by rw [htable]; rfl) ?_ hs hv hc ⟨rfl, rfl⟩
    (by simp [buffersOf])
  rw [htable, if_pos (by omega), if_neg (by simp [GroFlow.zero])]
  simp only
  omega

end

theorem resetFlow_eq (table : GroFlowTable) (h : 0 < table.flowTableSize) (i : Fin groFlowTableMaxSize) :
    table.resetFlow i = { table.setFlow i zero with flowTableSize := table.flowTableSize - 1 } := if_pos h

theorem resetFlow_setFlow {table : GroFlowTable} (h : 0 < table.flowTableSize) (i : Fin groFlowTableMaxSize)
    (flow : GroFlow) : (table.setFlow i flow).resetFlow i =
      { table.setFlow i zero with flowTableSize := table.flowTableSize - 1 } := by
  rw [resetFlow_eq (table.setFlow i flow) h]
  simp only [setFlow, update_idem]

/-- A length is counted in the packet of a slot. -/
theorem Holds.counted (h : Holds isL2 s held) (hi : held i = p :: rest) :
    Holds isL2 { s with vm := countLength s.vm p.bi } held := by
  have hfrom := countLength_from s.vm p.bi
  obtain ⟨hbi, hn, hkey, hslot⟩ := h.slot hi
  have hcounted : Coalesced isL2 (countLength s.vm p.bi) s.vnet p rest :=
    { hslot with
      whole := hslot.whole.countLength
      first := hslot.first.trans (hfrom.bytes p.bi)
      contents := by rw [hfrom.contents]; exact hslot.contents
      lt := by rw [hfrom.contents]; exact hslot.lt }
  have hmem : p.bi ∈ buffersOf (held i) := by rw [hi]; exact hslot.whole.packet.head_mem
  have hupdate : Holds isL2 { s with vm := countLength s.vm p.bi } (Function.update held i (p :: rest)) :=
    h.update (c := []) (s.table.groFlow i) h.layer (update_eq_self i _).symm rfl
      (hfrom.same.mono (by simpa using hmem)) (fun _ _ => rfl) (fun j => List.disjoint_nil_right _)
      ⟨hbi, hn, hkey, hcounted⟩ (by simp [hi])
  rwa [← hi, update_eq_self] at hupdate

/-- The packet of a slot is made ready to leave. -/
theorem Holds.leave (h : Holds isL2 s held) (hi : held i = p :: rest) (ack : ℕ) :
    Merged isL2 ⟨p.bi, (s.groFixupHeader p.bi ack).vm, (s.groFixupHeader p.bi ack).vnet p.bi⟩ p rest ∧
    SameOutside (buffersOf (held i)) s.vm (s.groFixupHeader p.bi ack).vm ∧
    ∀ k, k ∉ buffersOf (held i) → (s.groFixupHeader p.bi ack).vnet k = s.vnet k := by
  obtain ⟨-, -, -, hslot⟩ := h.slot hi
  obtain ⟨hmerged, hsame, hv⟩ := hslot.leave h.layer (flagsOnly_id _) (modify_eq_self rfl).symm rfl ack
  have hmem : p.bi ∈ buffersOf (held i) := by rw [hi]; exact hslot.whole.packet.head_mem
  refine ⟨hmerged, hsame.mono (by simpa using hmem), fun k hk => hv k fun hc => hk ?_⟩
  rw [List.mem_singleton.mp hc]
  exact hmem

/-- The packet is returned as it is now. -/
theorem Kept.unchanged {vm₀ : Vm} (h : Kept isL2 vm₀ a vm) (hs : SameOutside m vm vm')
    (hd : a.chain.Disjoint m) : Unchanged isL2 ⟨a.bi, vm', a.vnet⟩ a := by
  have hpacket := h.packet.congr hs hd
  have hcontents : (⟨a.bi, vm', a.vnet⟩ : Output).contents = vm.contents a.chain := by
    rw [Output.contents, Output.chain, hpacket.chain_eq]
    exact hs.contents hd
  refine ⟨rfl, hpacket, ?_, rfl⟩
  rw [hcontents]
  exact h.contents

/-! ### A packet that finds another one in its slot -/

variable {vm₀ : Vm} (h : Holds isL2 s held) (hi : held i = p :: rest)
    (hfresh : ∀ j, (buffersOf (held j)).Disjoint a.chain)
include h hi hfresh

/-- It does not follow: both leave. -/
theorem Holds.flushAll (hkept : Kept isL2 vm₀ a s.vm) (hv : s.vnet a.bi = a.vnet) :
    Moved isL2 held [a] (s.vnetGroFlushAllPackets i p.bi a.bi) (Function.update held i [])
      [.merged p rest, .unchanged a] := by
  obtain ⟨hmerged, hsame, hvnet⟩ := h.leave hi (s.table.groFlow i).lastAckNumber
  have ha : a.bi ∉ buffersOf (held i) := fun hc => hfresh i hc hkept.packet.head_mem
  refine ⟨?_, ?_, total_update (by simp [hi, packets])⟩
  · exact h.emptied (c := []) hi (resetFlow_setFlow (h.size_pos hi) i _) (hsame.mono (by simp))
      (fun k hk => hvnet k (by simpa using hk)) fun j => List.disjoint_nil_right _
  · refine .cons hmerged (.cons ?_ .nil)
    have := hkept.unchanged hsame (hfresh i).symm
    rwa [← hv, ← hvnet a.bi ha] at this

/-- The stored packet is full: it leaves, and the new one takes its place. -/
theorem Holds.swap (ha : Ready isL2 a pktLen s.vm) (hlen : groPaddedPacketSize < pktLen) (hv : s.vnet a.bi = a.vnet)
    (hkey : groFlowIsEqual (a.flowKey isL2) (s.table.groFlow i).flowKey = true) {ack now : ℕ} (flow : GroFlow)
    (hflow : flow.flowKey = (s.table.groFlow i).flowKey) (hn : flow.nBuffers = 0) (lastAck : ℕ) :
    Moved isL2 held [a] (((s.groFixupHeader p.bi lastAck).setFlow i flow).storeFirst i a.bi ack now, [p.bi])
      (Function.update held i [a]) [.merged p rest] := by
  obtain ⟨hmerged, hsame, hvnet⟩ := h.leave hi lastAck
  have hfull := (h.slot hi).2.1
  have hcoalesced : Coalesced isL2 (s.groFixupHeader p.bi lastAck).vm (s.groFixupHeader p.bi lastAck).vnet a [] :=
    (ha.coalesced hv hlen).congr hsame hvnet (by simpa [buffersOf] using (hfresh i).symm)
  have hperm : (p :: rest ++ [a]).Perm ([a] ++ p :: rest) := List.perm_append_comm
  refine ⟨?_, .cons hmerged .nil, total_update (by simpa [hi, packets] using hperm)⟩
  refine h.update (c := a.chain) { groFlowStorePacket flow a.bi with
      lastAckNumber := ack, nextTimeoutTs := now + groFlowTimeout } h.layer ?_ ?_ (hsame.mono (by simp))
    (fun k hk => hvnet k fun hc => hk (List.mem_append_left _ hc)) hfresh ⟨?_, ?_, ?_, hcoalesced⟩
    (by simp [buffersOf])
  · simp [GroMain.storeFirst, GroMain.setFlow, setFlow, GroMain.groFixupHeader]
  · rw [if_pos (by omega), if_pos (by simp [groFlowStorePacket])]
    rfl
  · simp [groFlowStorePacket, hn]
  · simp [groFlowStorePacket, hn]
  · rw [← hflow] at hkey
    exact hkey

section
variable (ha : Ready isL2 a pktLen s.vm) (hconn : a.connection isL2 = p.connection isL2)
  (hseq : a.seqNumber isL2 = (p.seqNumber isL2 + (payloads isL2 (p :: rest)).length) % 2 ^ 32)
  (hlt : (s.vm.contents (buffersOf (p :: rest))).length + (a.payload isL2).length < tcpMaxGsoSz)
include ha hconn hseq hlt

/-- It is chained behind. -/
theorem Holds.merge (ack : ℕ) :
    Moved isL2 held [a] ({ s with vm := countLength s.vm p.bi }.mergeInto i p.bi a.bi (a.payload isL2).length
      (a.gho isL2).hdrSz ack, []) (Function.update held i (p :: (rest ++ [a]))) [] := by
  obtain ⟨hbi, hn, hkey, hslot⟩ := h.slot hi
  have hdisjoint := hfresh i
  rw [hi] at hdisjoint
  obtain ⟨hcoalesced, hsame⟩ := hslot.append ha hdisjoint hconn hseq hlt
  refine ⟨?_, .nil, total_update (by simp [hi])⟩
  refine h.update (c := a.chain) { groFlowStorePacket (s.table.groFlow i) a.bi with lastAckNumber := ack }
    h.layer rfl ?_ (by rw [hi]; exact hsame) (fun _ _ => rfl) hfresh ⟨?_, ?_, hkey, hcoalesced⟩
    (by simp [hi, buffersOf])
  · rw [if_pos (by omega), if_pos (by simp [groFlowStorePacket])]
    rfl
  · simp [groFlowStorePacket, hn, hbi]
  · simp [groFlowStorePacket, hn]

/-- It is chained behind, and the whole packet leaves. -/
theorem Holds.mergeFlush (ack : ℕ) (flags : Byte) (flow : GroFlow) {s₁ s₂ : GroMain}
    (h₁ : s₁ = { s with vm := countLength s.vm p.bi }.mergeInto i p.bi a.bi (a.payload isL2).length
      (a.gho isL2).hdrSz ack)
    (h₂ : s₂ = GroMain.groFixupHeader { s₁ with
      vm := s₁.vm.modify p.bi (·.store ((p.gho isL2).l4HdrOffset + 13) [flags]) } p.bi ack) :
    Moved isL2 held [a] ({ s₂ with table := (s₂.table.setFlow i flow).resetFlow i }, [p.bi])
      (Function.update held i []) [.merged p (rest ++ [a])] := by
  obtain ⟨hbi, hn, hkey, hslot⟩ := h.slot hi
  have hdisjoint := hfresh i
  rw [hi] at hdisjoint
  obtain ⟨hcoalesced, hsame⟩ := hslot.append ha hdisjoint hconn hseq hlt
  have hvm₁ : s₁.vm = groMergeBuffers (countLength s.vm p.bi) p.bi a.bi (a.payload isL2).length
      (a.gho isL2).hdrSz := by rw [h₁]; rfl
  rw [← hvm₁] at hcoalesced hsame
  obtain ⟨hmerged, hsame₂, hv₂⟩ := hcoalesced.leave (s := { s₁ with
      vm := s₁.vm.modify p.bi (·.store ((p.gho isL2).l4HdrOffset + 13) [flags]) })
    (by rw [h₁]; exact h.layer) (flagsOnly_store _ flags) rfl (by rw [h₁]; rfl) ack
  rw [← h₂] at hmerged hsame₂ hv₂
  have hmem : p.bi ∈ buffersOf (held i) ++ a.chain := by
    rw [hi]
    exact List.mem_append_left _ hslot.whole.packet.head_mem
  refine ⟨?_, .cons hmerged .nil, total_update (by simp [hi, packets])⟩
  refine h.emptied (c := a.chain) hi ?_ ?_ (fun k hk => hv₂ k fun hc => hk ?_) hfresh
  · rw [h₂, h₁]
    simp only [GroMain.groFixupHeader, GroMain.mergeInto, GroMain.setFlow]
    rw [setFlow, setFlow, update_idem]
    exact resetFlow_setFlow (h.size_pos hi) i flow
  · rw [← hi] at hsame
    exact (hsame.trans hsame₂).mono (by simpa using hmem)
  · rw [List.mem_singleton.mp hc]
    exact hmem

end

/-- `vnet_gro_flow_table_inline`, from where the slot is known. -/
theorem Holds.coalesce (hkept : Kept isL2 vm₀ a s.vm) (ha : Ready isL2 a pktLen s.vm) (hv : s.vnet a.bi = a.vnet)
    (hkey : groFlowIsEqual (a.flowKey isL2) (s.table.groFlow i).flowKey = true)
    (hconn : a.connection isL2 = p.connection isL2) {isFlush : Bool}
    (hlen : isFlush = false → groPaddedPacketSize < pktLen) (now : ℕ) :
    ∃ held' places, Moved isL2 held [a] (s.coalesce i a.bi (a.gho isL2) pktLen isFlush now) held' places := by
  obtain ⟨hbi, hn, -, hslot⟩ := h.slot hi
  have hgho : headerOffsets (s.vm.buffer p.bi) (s.vnet p.bi) s.table.isL2 = p.gho isL2 := by
    rw [h.layer, hslot.vnet]
    exact hslot.first.headerOffsets _ _
  have hseqS : tcpSeqNumber (s.vm.buffer p.bi) (p.gho isL2).l4HdrOffset = p.seqNumber isL2 :=
    be_congr hslot.first.current _ _
  have hseq : tcpSeqNumber (s.vm.buffer a.bi) (a.gho isL2).l4HdrOffset = a.seqNumber isL2 := be_congr ha.current _ _
  have hfit : u32 ((s.vm.contents (buffersOf (p :: rest))).length + (a.payload isL2).length) =
      (s.vm.contents (buffersOf (p :: rest))).length + (a.payload isL2).length := by
    have hlt := hslot.lt
    have hpkt := ha.lt
    have hpay : (a.payload isL2).length ≤ pktLen := by
      rw [Arrival.payload, List.length_drop, List.length_take, ha.length]
      omega
    simp only [tcpMaxGsoSz] at hlt hpkt
    rw [u32]
    omega
  -- the table after the length of the stored packet has been counted
  have hcounted := h.counted hi
  have hsame : SameOutside (buffersOf (held i)) s.vm (countLength s.vm p.bi) :=
    (countLength_from s.vm p.bi).same.mono (by simpa [hi] using hslot.whole.packet.head_mem)
  have hkept' := hkept.frame hsame (hfresh i).symm
  have ha' := ha.congr hsame (hfresh i).symm
  unfold GroMain.coalesce
  simp only [hbi, hgho, hslot.whole.length, hslot.payload_length, ha.payload_length, hseqS, hseq, hfit]
  by_cases hnext : groTcpSequenceCheck (p.seqNumber isL2) (a.seqNumber isL2) (payloads isL2 (p :: rest)).length = true
  · rw [if_pos hnext]
    have hfollows := (eq_of_beq hnext).symm
    split
    · next hroom =>
      cases isFlush with
      | true => exact ⟨_, _, h.mergeFlush hi hfresh ha hconn hfollows hroom.1 _ _ _ rfl rfl⟩
      | false => exact ⟨_, _, h.merge hi hfresh ha hconn hfollows hroom.1 _⟩
    · cases isFlush with
      | true => exact ⟨_, _, hcounted.flushAll hi hfresh hkept' hv⟩
      | false => exact ⟨_, _, hcounted.swap hi hfresh ha' (hlen rfl) hv hkey
          { s.table.groFlow i with nBuffers := 0 } rfl rfl _⟩
  · rw [if_neg hnext]
    exact ⟨_, _, hcounted.flushAll hi hfresh hkept' hv⟩

end

/-! ### Finding a slot -/

variable {i : Fin groFlowTableMaxSize}

/-- A slot that is found has a packet in it, for the key of a packet is not that of an empty slot. -/
theorem Holds.of_getFlow (h : Holds isL2 s held) (ha : SoundTcp isL2 a)
    (hi : s.table.getFlow (a.flowKey isL2) = some i) :
    groFlowIsEqual (a.flowKey isL2) (s.table.groFlow i).flowKey = true ∧ ∃ p rest, held i = p :: rest := by
  have hkey := List.find?_some hi
  refine ⟨hkey, ?_⟩
  cases hheld : held i with
  | cons p rest => exact ⟨p, rest, rfl⟩
  | nil =>
    have hslot := h.slots i
    rw [hheld] at hslot
    have hzero := ha.key
    simp only [groFlowIsEqual, and_eq_true, beq_iff_eq, and_eq_false_iff, beq_eq_false_iff_ne] at hkey hzero
    obtain ⟨hdata, hu32⟩ : (s.table.groFlow i).flowKey.flowData = zero.flowData ∧
        (s.table.groFlow i).flowKey.flowDataU32 = zero.flowDataU32 := by
      simpa [groFlowIsEqual] using hslot.2
    rw [hkey.1, hkey.2, hdata, hu32] at hzero
    simp at hzero

theorem newFlow_cases {table table' : GroFlowTable} (h : table.newFlow = some (i, table')) :
    (table.groFlow i).nBuffers = 0 ∧ table' = { table with flowTableSize := table.flowTableSize + 1 } := by
  unfold newFlow at h
  split at h
  · rw [map_eq_some_iff] at h
    obtain ⟨j, hj, hpair⟩ := h
    obtain ⟨rfl, rfl⟩ := Prod.mk.inj hpair
    exact ⟨by simpa using List.find?_some hj, rfl⟩
  · cases h

/-- The packet is the first of its flow. -/
theorem Holds.storeFirst {pktLen : ℕ} (h : Holds isL2 s held) (hfresh : ∀ j, (buffersOf (held j)).Disjoint a.chain)
    (ha : Ready isL2 a pktLen s.vm) (hlen : groPaddedPacketSize < pktLen) (hv : s.vnet a.bi = a.vnet)
    {table : GroFlowTable} (hnew : s.table.newFlow = some (i, table)) (ack now : ℕ) :
    Moved isL2 held [a] (({ s with table := table.setFlow i (groFlowSetFlowKey (table.groFlow i) (a.flowKey isL2)) } :
      GroMain).storeFirst i a.bi ack now, []) (Function.update held i [a]) [] := by
  obtain ⟨hempty, rfl⟩ := newFlow_cases hnew
  have hheld : held i = [] := List.length_eq_zero_iff.mp ((h.slots i).nBuffers.symm.trans hempty)
  refine ⟨?_, .nil, total_update (by simp [hheld])⟩
  refine h.update (c := a.chain) { groFlowStorePacket (groFlowSetFlowKey (s.table.groFlow i) (a.flowKey isL2)) a.bi with
      lastAckNumber := ack, nextTimeoutTs := now + groFlowTimeout } h.layer ?_ ?_
    (.refl _ _) (fun _ _ => rfl) hfresh ⟨?_, ?_, ?_, ha.coalesced hv hlen⟩ (by simp [buffersOf])
  · simp [GroMain.storeFirst, GroMain.setFlow, setFlow]
  · rw [if_neg (by simp [hempty]), if_pos (by simp [groFlowStorePacket])]
    rfl
  · simp [groFlowStorePacket, groFlowSetFlowKey, hempty]
  · simp [groFlowStorePacket, groFlowSetFlowKey, hempty]
  · simp [groFlowStorePacket, groFlowSetFlowKey, groFlowIsEqual, flowData, flowDataU32]

/-! ### A packet that comes -/

theorem Placed.kept (h : Placed vm a) : Kept isL2 vm a vm := ⟨.refl _ _, h.whole.packet, Or.inl h.contents⟩

section
variable (h : Holds isL2 s held) (hfresh : ∀ j, (buffersOf (held j)).Disjoint a.chain) (hv : s.vnet a.bi = a.vnet)
include h hfresh hv

/-- It is returned at once. -/
theorem Holds.bypass (hkept : Kept isL2 s.vm a vm) :
    Moved isL2 held [a] ({ s with vm := vm }, [a.bi]) held [.unchanged a] where
  holds := h.frame rfl hkept.same (fun _ _ => rfl) hfresh
  outs := by
    refine .cons ?_ .nil
    have hout := hkept.unchanged (.refl [] vm) (List.disjoint_nil_right _)
    rwa [← hv] at hout
  sum := rfl

/-- `vnet_gro_flow_table_inline` puts the packet in one place. -/
theorem Holds.inline (hplaced : Placed s.vm a) (hsound : Sound isL2 a)
    (hconn : ∀ i p rest, held i = p :: rest → groFlowIsEqual (a.flowKey isL2) (s.table.groFlow i).flowKey = true →
      a.connection isL2 = p.connection isL2) :
    ∃ held' places, Moved isL2 held [a] (s.vnetGroFlowTableInline a.bi a.checksumCorrect a.now) held' places := by
  unfold GroMain.vnetGroFlowTableInline
  split
  · exact ⟨_, _, h.bypass hfresh hv hplaced.kept⟩
  split
  · exact ⟨_, _, h.bypass hfresh hv hplaced.kept⟩
  rw [hv, h.layer]
  cases hdata : groGetPacketData s.vm a.vnet a.bi isL2 a.checksumCorrect with
  | none => exact ⟨_, _, h.bypass hfresh hv hplaced.kept⟩
  | some d =>
    obtain ⟨hgho, hkey, hkept, hready⟩ := groGetPacketData_cases hplaced hsound hdata
    obtain ⟨vm, pktLen, gho, flowKey⟩ := d
    simp only at hgho hkey hkept hready ⊢
    rw [hgho, hkey]
    by_cases hzero : pktLen = 0
    · rw [if_pos hzero]
      exact ⟨_, _, h.bypass hfresh hv hkept⟩
    rw [if_neg hzero]
    have ha := hready.resolve_left hzero
    have hmoved := h.bypass hfresh hv hkept
    have hs : Holds isL2 { s with vm := vm } held := hmoved.holds
    -- the slot that is found
    have hold : ∀ i isFlush, s.table.getFlow (a.flowKey isL2) = some i →
        (isFlush = false → groPaddedPacketSize < pktLen) →
        (s.table.groFlow i).nBuffers ≠ 0 ∧
        ∃ held' places, Moved isL2 held [a]
          (GroMain.coalesce { s with vm := vm } i a.bi (a.gho isL2) pktLen isFlush a.now) held' places := by
      intro i isFlush hget hlen
      obtain ⟨hequal, p, rest, hi⟩ := hs.of_getFlow ha.sound hget
      refine ⟨?_, hs.coalesce hi hfresh hkept ha hv hequal (hconn i p rest hi hequal) hlen a.now⟩
      rw [(h.slot hi).2.1]
      exact Nat.succ_ne_zero _
    generalize hflush : (!(tcpFlags (vm.buffer a.bi) (a.gho isL2).l4HdrOffset &&& tcpFlagPsh == 0 &&
      decide (pktLen > groMinPacketSize))) = isFlush
    cases isFlush with
    | true =>
      rw [if_pos rfl]
      cases hget : s.table.getFlow (a.flowKey isL2) with
      | none => exact ⟨_, _, hmoved⟩
      | some i =>
        obtain ⟨hfull, hstep⟩ := hold i true hget (by simp)
        simp only [map_some]
        rw [if_neg hfull]
        exact hstep
    | false =>
      rw [if_neg Bool.false_ne_true, findOrAddFlow]
      have hlen : groPaddedPacketSize < pktLen := by
        rw [not_eq_false', and_eq_true, decide_eq_true_eq] at hflush
        exact lt_trans (by decide) hflush.2
      cases hget : s.table.getFlow (a.flowKey isL2) with
      | some i =>
        obtain ⟨hfull, hstep⟩ := hold i false hget fun _ => hlen
        simp only
        rw [if_neg hfull]
        exact hstep
      | none =>
        cases hnew : s.table.newFlow with
        | none => exact ⟨_, _, hmoved⟩
        | some found =>
          obtain ⟨i, table⟩ := found
          obtain ⟨hempty, htable⟩ := newFlow_cases hnew
          simp only [map_some]
          rw [if_pos (by simp [setFlow, groFlowSetFlowKey, htable, hempty])]
          exact ⟨_, _, hs.storeFirst hfresh ha hlen hv hnew _ _⟩

end

/-! ### Flushing -/

/-- What has been returned stays what it is, whatever happens to other buffers. -/
theorem PlaceIs.congr {bi : ℕ} {v : VnetBuffer} {pl : Place} (h : PlaceIs isL2 ⟨bi, vm, v⟩ pl)
    (hs : SameOutside m vm vm') (hd : (buffersOf pl.packets).Disjoint m) :
    PlaceIs isL2 ⟨bi, vm', v⟩ pl ∧ bi ∉ m := by
  cases pl with
  | merged p rest =>
    obtain rfl : bi = p.bi := h.bi
    exact ⟨Merged.congr h hs hd, hd h.packet.head_mem⟩
  | unchanged a =>
    obtain rfl : bi = a.bi := h.bi
    have hchain : a.chain.Disjoint m := by simpa [buffersOf, packets] using hd
    have hpacket : Packet vm' a.bi a.chain := h.packet.congr hs hchain
    have hcontents : (⟨a.bi, vm', v⟩ : Output).contents = (⟨a.bi, vm, v⟩ : Output).contents := by
      rw [contents, contents, chain, chain, hpacket.chain_eq, h.packet.chain_eq]
      exact hs.contents hchain
    exact ⟨⟨rfl, hpacket, by rw [hcontents]; exact h.contents, h.vnet⟩, hchain h.packet.head_mem⟩

variable {places : List Place}

theorem outputs_congr {to' : List ℕ} (h : List.Forall₂ (PlaceIs isL2) (s.outputs to') places)
    (hs : SameOutside m s.vm s'.vm) (hv : ∀ k, k ∉ m → s'.vnet k = s.vnet k)
    (hd : ∀ pl ∈ places, (buffersOf pl.packets).Disjoint m) :
    List.Forall₂ (PlaceIs isL2) (s'.outputs to') places := by
  induction to' generalizing places with
  | nil =>
    cases h
    exact .nil
  | cons bi to' ih =>
    cases h with
    | cons hpl hrest =>
      obtain ⟨hpl', hbi⟩ := PlaceIs.congr hpl hs (hd _ List.mem_cons_self)
      rw [← hv bi hbi] at hpl'
      exact .cons hpl' (ih hrest fun pl hpl => hd pl (List.mem_cons_of_mem _ hpl))

/-- So far the flush has kept all packets, and the buffers of those that leave are in no slot. -/
def Flushing (isL2 : Bool) (held : Held) (r : GroMain × List ℕ) : Prop :=
  ∃ held' places, Moved isL2 held [] r held' places ∧
    ∀ pl ∈ places, ∀ j, (buffersOf pl.packets).Disjoint (buffersOf (held' j))

theorem Flushing.step {r : GroMain × List ℕ} (h : Flushing isL2 held r) (now : Fin groFlowTableMaxSize → ℕ)
    (i : Fin groFlowTableMaxSize) : Flushing isL2 held (GroMain.flushSlot now r i) := by
  obtain ⟨held', places, hmoved, hgone⟩ := h
  simp only [GroMain.flushSlot]
  split
  · next hdue =>
    cases hi : held' i with
    | nil =>
      have hn := (hmoved.holds.slots i).nBuffers
      rw [hi] at hn
      exact absurd hn hdue.1
    | cons p rest =>
      obtain ⟨hbi, -, -, -⟩ := hmoved.holds.slot hi
      obtain ⟨hmerged, hsame, hv⟩ := hmoved.holds.leave hi (r.1.table.groFlow i).lastAckNumber
      rw [hbi, GroMain.flushFlow, hbi]
      refine ⟨update held' i [], places ++ [.merged p rest], ⟨?_, ?_, ?_⟩, ?_⟩
      · exact hmoved.holds.emptied (c := []) hi (resetFlow_eq _ (hmoved.holds.size_pos hi) i) (hsame.mono (by simp))
          (fun k hk => hv k (by simpa using hk)) fun j => List.disjoint_nil_right _
      · rw [GroMain.outputs, List.map_append]
        exact List.rel_append (outputs_congr hmoved.outs hsame hv fun pl hpl => hgone pl hpl i) (.cons hmerged .nil)
      · have hsum : total (update held' i []) + ((p :: rest : List Arrival) : Multiset Arrival) =
            total held' + ([] : List Arrival) := total_update (by simp [hi])
        rw [List.flatMap_append, ← Multiset.coe_add, add_left_comm]
        simp only [List.flatMap_cons, List.flatMap_nil, List.append_nil, packets]
        rw [hsum, Multiset.coe_nil, add_zero, add_comm]
        exact hmoved.sum
      · intro pl hpl j
        rcases eq_or_ne j i with rfl | hj
        · rw [update_self]
          exact List.disjoint_nil_right _
        · rw [update_of_ne hj]
          rcases List.mem_append.mp hpl with hpl | hpl
          · exact hgone pl hpl j
          · rw [List.mem_singleton.mp hpl, packets, ← hi]
            exact hmoved.holds.apart i j hj.symm
  · exact ⟨held', places, hmoved, hgone⟩

/-- `vnet_gro_flow_table_flush` loses no packet. -/
theorem Holds.flush (h : Holds isL2 s held) (now : Fin groFlowTableMaxSize → ℕ) :
    ∃ held' places, Moved isL2 held [] (s.vnetGroFlowTableFlush now) held' places := by
  have hstart : Flushing isL2 held (s, []) := ⟨held, [], ⟨h, .nil, rfl⟩, by simp⟩
  unfold GroMain.vnetGroFlowTableFlush
  split
  · have hend : Flushing isL2 held (run (GroMain.flushSlot now) (s, []) (List.finRange groFlowTableMaxSize)) :=
      run_inv (fun _ i hr _ => hr.step now i) (AllSteps.of_forall (fun _ _ => trivial) _ _) hstart
    obtain ⟨held', places, hmoved, -⟩ := hend
    exact ⟨held', places, hmoved⟩
  · exact ⟨held, [], h, .nil, rfl⟩

/-! ### Runs -/

/-- The packet comes in its buffers. -/
def GroMain.receive (s : GroMain) (a : Arrival) : GroMain :=
  { s with
    vm := { s.vm with buffer := fun i => if i ∈ a.chain then a.buffer i else s.vm.buffer i }
    vnet := update s.vnet a.bi a.vnet }

/-- The table, with the packets that have come and those that were returned. -/
structure GroHistory where
  main : GroMain
  arrived : List Arrival
  returned : List Output

open GroHistory

/-- A table as `gro_flow_table_init` leaves it. -/
def GroHistory.init (vm : Vm) (vnet : ℕ → VnetBuffer) (isEnable isL2 : Bool) : GroHistory :=
  ⟨⟨vm, vnet, ⟨isEnable, isL2, 0, fun _ => zero⟩⟩, [], []⟩

inductive GroOp where
  | packet (a : Arrival)
  | flush (now : Fin groFlowTableMaxSize → ℕ)

def GroHistory.step (h : GroHistory) : GroOp → GroHistory
  | .packet a =>
    let r := (h.main.receive a).vnetGroFlowTableInline a.bi a.checksumCorrect a.now
    ⟨r.1, h.arrived ++ [a], h.returned ++ r.1.outputs r.2⟩
  | .flush now =>
    let r := h.main.vnetGroFlowTableFlush now
    ⟨r.1, h.arrived, h.returned ++ r.1.outputs r.2⟩

/-- A packet as it is handed over: its length is told right, and none of its buffers is in a packet of the table. -/
@[mk_iff]
structure HandedOver (s : GroMain) (a : Arrival) : Prop where
  packet : Packet (s.receive a).vm a.bi a.chain
  length : (s.receive a).vm.vlibBufferLengthInChain a.bi = a.contents.length
  lt : a.contents.length < 2 ^ 32
  fresh : ∀ i, (s.table.groFlow i).nBuffers ≠ 0 →
    ∀ k ∈ s.vm.chain (s.table.groFlow i).bufferIndex, k ∉ a.chain

instance (s : GroMain) (a : Arrival) : Decidable (HandedOver s a) := decidable_of_iff' _ (handedOver_iff s a)

/-- A slot that has the key of the packet has a packet of its connection. -/
def SameConnection (s : GroMain) (a : Arrival) : Prop :=
  ∀ i, (s.table.groFlow i).nBuffers ≠ 0 →
    groFlowIsEqual (a.flowKey s.table.isL2) (s.table.groFlow i).flowKey = true →
    connection (s.vm.buffer (s.table.groFlow i).bufferIndex) (s.vnet (s.table.groFlow i).bufferIndex) s.table.isL2 =
      a.connection s.table.isL2
deriving Decidable

/-- What is asked of the packets that come. -/
def GroHistory.Given (h : GroHistory) : GroOp → Prop
  | .packet a => HandedOver h.main a ∧ Sound h.main.table.isL2 a
  | .flush _ => True

instance (h : GroHistory) : (op : GroOp) → Decidable (h.Given op)
  | .packet a => inferInstanceAs (Decidable (HandedOver h.main a ∧ Sound h.main.table.isL2 a))
  | .flush _ => isTrue trivial

def GroHistory.NoClash (h : GroHistory) : GroOp → Prop
  | .packet a => SameConnection h.main a
  | .flush _ => True

instance (h : GroHistory) : (op : GroOp) → Decidable (h.NoClash op)
  | .packet a => inferInstanceAs (Decidable (SameConnection h.main a))
  | .flush _ => isTrue trivial

/-- Every packet is in one place, and what was put together belongs together. -/
structure Accounts (isL2 : Bool) (h : GroHistory) (held : Held) (places : List Place) : Prop where
  holds : Holds isL2 h.main held
  outs : List.Forall₂ (PlaceIs isL2) h.returned places
  sum : total held + (places.flatMap packets : List Arrival) = h.arrived

theorem Accounts.init (vm : Vm) (vnet : ℕ → VnetBuffer) (isEnable isL2 : Bool) :
    Accounts isL2 (.init vm vnet isEnable isL2) (fun _ => []) [] := by
  have hzero : groFlowIsEqual zero zero = true := by decide
  refine ⟨⟨rfl, fun i => ⟨rfl, hzero⟩, fun i j _ => List.disjoint_nil_left _, ?_⟩, .nil, ?_⟩
  · simp [GroHistory.init, GroFlow.zero]
  · simp [total, GroHistory.init]

/-- What one call moves is moved in the whole account. -/
theorem Accounts.moved {h : GroHistory} {places' : List Place} {held' : Held} {come : List Arrival}
    {r : GroMain × List ℕ} (ha : Accounts isL2 h held places)
    (hm : Moved isL2 held come r held' places') :
    Accounts isL2 ⟨r.1, h.arrived ++ come, h.returned ++ r.1.outputs r.2⟩ held' (places ++ places') where
  holds := hm.holds
  outs := List.rel_append ha.outs hm.outs
  sum := by
    rw [List.flatMap_append, ← Multiset.coe_add, add_left_comm, hm.sum, ← Multiset.coe_add, ← ha.sum]
    rw [← add_assoc, add_comm (total held)]

theorem Coalesced.connection_eq (h : Coalesced isL2 vm vnet p rest) :
    connection (vm.buffer p.bi) (vnet p.bi) isL2 = p.connection isL2 := by
  have hgho := h.first.headerOffsets p.vnet isL2
  rw [h.vnet, Arrival.connection, connection, connection, hgho]
  simp only [groGetFlowFromPacket, be_congr h.first.current]

theorem Accounts.step {h : GroHistory} (ha : Accounts isL2 h held places) {op : GroOp}
    (hgiven : h.Given op) (hclash : h.NoClash op) : ∃ held' places', Accounts isL2 (h.step op) held' places' := by
  cases op with
  | flush now =>
    obtain ⟨held', places', hm⟩ := ha.holds.flush now
    have hmoved := ha.moved hm
    rw [List.append_nil] at hmoved
    exact ⟨held', _, hmoved⟩
  | packet a =>
    obtain ⟨hhand, hsound⟩ := hgiven
    have hL2 := ha.holds.layer
    have hfresh : ∀ j, (buffersOf (held j)).Disjoint a.chain := by
      intro j k hk hka
      cases hj : held j with
      | nil => simp [hj, buffersOf] at hk
      | cons p rest =>
        obtain ⟨hbi, hn, -, hslot⟩ := ha.holds.slot hj
        refine hhand.fresh j (by omega) k ?_ hka
        rw [hbi, hslot.whole.packet.chain_eq, ← hj]
        exact hk
    have hbuffer : ∀ i ∈ a.chain, (h.main.receive a).vm.buffer i = a.buffer i := fun i hi => if_pos hi
    have hreceived : Holds isL2 (h.main.receive a) held := by
      refine ha.holds.frame (c := a.chain) rfl ⟨fun i hi => if_neg hi, rfl, rfl⟩ (fun i hi => ?_) hfresh
      exact update_of_ne (by rintro rfl; exact hi hhand.packet.head_mem) _ _
    have hcontents : (h.main.receive a).vm.contents a.chain = a.contents := by
      rw [Vm.contents, Arrival.contents]
      exact List.flatMap_congr fun i hi => by rw [hbuffer i hi]
    have hplaced : Placed (h.main.receive a).vm a :=
      ⟨⟨hhand.packet, by rw [hcontents]; exact hhand.length, by rw [hcontents]; exact hhand.lt⟩, hbuffer⟩
    have hconn : ∀ i p rest, held i = p :: rest →
        groFlowIsEqual (a.flowKey isL2) (h.main.table.groFlow i).flowKey = true →
        a.connection isL2 = p.connection isL2 := by
      intro i p rest hi hkey
      obtain ⟨hbi, hn, -, hslot⟩ := ha.holds.slot hi
      have hsame := hclash i (by omega)
      rw [hL2, hbi, hslot.connection_eq] at hsame
      exact (hsame hkey).symm
    obtain ⟨held', places', hm⟩ := hreceived.inline hfresh (update_self _ _ _) hplaced (hL2 ▸ hsound) hconn
    exact ⟨held', _, ha.moved hm⟩

/-- Whatever packets come, in any order and with any flushes in between, each is in one place, and only packets of one
    connection that follow each other are put together: provided that no two connections share a slot. -/
theorem gro_accounts (vm : Vm) (vnet : ℕ → VnetBuffer) (isEnable isL2 : Bool) (ops : List GroOp)
    (hgiven : AllSteps (fun h op => Given h op ∧ NoClash h op) step
      (.init vm vnet isEnable isL2) ops) :
    ∃ held places, Accounts isL2 (run step (.init vm vnet isEnable isL2) ops) held places :=
  run_inv (P := fun h => ∃ held places, Accounts isL2 h held places)
    (fun _ _ hh hok => let ⟨_, _, ha⟩ := hh; ha.step hok.1 hok.2) hgiven
    ⟨_, _, Accounts.init vm vnet isEnable isL2⟩

/-! ### Two connections in one slot -/

/-- A TCP segment from 10.0.0.1 to 10.0.0.2 with `n` bytes of payload, in the buffer `bi`. -/
def segment (bi : ℕ) (srcPort : Byte) (seq : ℕ) (flags : Byte) (n : ℕ) : Arrival where
  bi := bi
  chain := [bi]
  buffer _ := bufferOf ([0x45, 0] ++ toBe 2 (40 + n) ++ [0, 0, 0, 0, 64, 6, 0, 0, 10, 0, 0, 1, 10, 0, 0, 2] ++
    [0x10, srcPort, 0, 80] ++ toBe 4 seq ++ [0, 0, 0, 1, 0x50, flags, 1, 0, 0, 0, 0, 0] ++ List.replicate n srcPort)
  vnet := ⟨1, 2, 0, true, false, false, false⟩
  checksumCorrect := true
  now := 0

def emptyVm : Vm := ⟨fun _ => bufferOf [], 2, 2048, [], []⟩

def noTable : GroHistory := .init emptyVm (fun _ => ⟨0, 0, 0, false, false, false, false⟩) true false

/-- Two segments that follow each other; the second is sent with `PSH`. -/
def twoSegments (port₁ port₂ : Byte) : List GroOp :=
  [.packet (segment 0 port₁ 1 0x10 220), .packet (segment 1 port₂ 221 0x18 30)]

theorem gro_accounts_twoSegments :
    ∃ held places, Accounts false (run step noTable (twoSegments 1 1)) held places :=
  gro_accounts _ _ _ _ _ (by decide +kernel)

example : ((run step noTable (twoSegments 1 1)).returned.map fun o => (o.bi, o.contents.length)) =
    [(0, 290)] := by decide +kernel

/-- The ports are not in the part of the key that is compared: the segments of two connections are put together. -/
theorem gro_mixes_ports :
    AllSteps Given step noTable (twoSegments 1 2) ∧
    ¬ ∃ held places, Accounts false (run step noTable (twoSegments 1 2)) held places := by
  refine ⟨by decide +kernel, ?_⟩
  rintro ⟨held, places, h⟩
  have hempty : ∀ i, ((run step noTable (twoSegments 1 2)).main.table.groFlow i).nBuffers = 0 := by
    decide +kernel
  have hone : (run step noTable (twoSegments 1 2)).returned.length = 1 := by decide +kernel
  have harrived : (run step noTable (twoSegments 1 2)).arrived =
    [segment 0 1 1 0x10 220, segment 1 2 221 0x18 30] := rfl
  have hports : (segment 0 1 1 0x10 220).connection false ≠ (segment 1 2 221 0x18 30).connection false := by
    decide +kernel
  have hheld : total held = 0 := by
    refine sum_eq_zero fun i _ => ?_
    have hlen := (h.holds.slots i).nBuffers
    rw [hempty i] at hlen
    rw [List.length_eq_zero_iff.mp hlen.symm, Multiset.coe_nil]
  obtain ⟨o, ho⟩ := List.length_eq_one_iff.mp hone
  obtain ⟨pl, rfl⟩ := List.length_eq_one_iff.mp (h.outs.length_eq.symm.trans hone)
  have houts := h.outs
  have hsum := h.sum
  rw [ho] at houts
  rw [hheld, zero_add, harrived, List.flatMap_singleton, Multiset.coe_eq_coe] at hsum
  cases pl with
  | unchanged a => simpa [packets] using hsum.length_eq
  | merged p rest =>
    cases houts with
    | cons hmerged _ =>
      -- whatever packet comes first, the other is said to be of its connection
      have hsame : ∀ q ∈ p :: rest, q.connection false = p.connection false :=
        List.forall_mem_cons.mpr ⟨rfl, hmerged.one⟩
      exact hports ((hsame _ (hsum.mem_iff.mpr (by simp))).trans (hsame _ (hsum.mem_iff.mpr (by simp))).symm)

end Vpp.Gso
