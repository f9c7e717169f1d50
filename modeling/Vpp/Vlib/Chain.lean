import Vpp.Vlib.Buffer

/-! The chain of a packet as a list of its buffers, and what leaves it alone.

    `Packet vm bi l` says that the packet at `bi` is made of the buffers `l`, each once. Every operation
    on buffers changes some of them and not the others; what a packet is, and what it holds, depends on
    its own buffers only (`Packet.congr`, `contents_congr`). -/

namespace Vpp.Vlib
open Vpp.Schemes List VlibBuffer Option Vm

variable {vm vm' : Vm} {bi bj : ℕ} {l m : List ℕ} {f : VlibBuffer → VlibBuffer} (b : VlibBuffer)

/-! ### One buffer changes -/

@[simp] theorem buffer_modify_self : (vm.modify bi f).buffer bi = f (vm.buffer bi) := by
  simp [Vm.modify]

theorem buffer_modify_of_ne (h : bj ≠ bi) : (vm.modify bi f).buffer bj = vm.buffer bj := by
  simp [Vm.modify, Function.update_of_ne h]

theorem modify_eq_self (h : f (vm.buffer bi) = vm.buffer bi) : vm.modify bi f = vm := by
  simp [Vm.modify, h]

/-- A change that keeps a field keeps it everywhere. -/
theorem field_modify {γ : Type*} {g : VlibBuffer → γ} (hg : ∀ b, g (f b) = g b) (i j : ℕ) :
    g ((vm.modify i f).buffer j) = g (vm.buffer j) := by
  rcases eq_or_ne j i with rfl | hne
  · rw [buffer_modify_self, hg]
  · rw [buffer_modify_of_ne hne]

@[simp] theorem nBuffers_modify : (vm.modify bi f).nBuffers = vm.nBuffers := rfl
@[simp] theorem dataSize_modify : (vm.modify bi f).dataSize = vm.dataSize := rfl

/-- Nothing but the buffers in `l`, and what has been freed, is different. -/
structure SameOutside (l : List ℕ) (vm vm' : Vm) : Prop where
  buffer : ∀ i, i ∉ l → vm'.buffer i = vm.buffer i
  nBuffers : vm'.nBuffers = vm.nBuffers
  dataSize : vm'.dataSize = vm.dataSize

theorem SameOutside.refl (l : List ℕ) (vm : Vm) : SameOutside l vm vm := ⟨fun _ _ => rfl, rfl, rfl⟩

theorem SameOutside.trans {vm'' : Vm} (h : SameOutside l vm vm') (h' : SameOutside m vm' vm'') :
    SameOutside (l ++ m) vm vm'' := by
  refine ⟨fun i hi => ?_, h'.nBuffers.trans h.nBuffers, h'.dataSize.trans h.dataSize⟩
  rw [mem_append, not_or] at hi
  rw [h'.buffer i hi.2, h.buffer i hi.1]

theorem SameOutside.mono (h : SameOutside l vm vm') (hsub : l ⊆ m) : SameOutside m vm vm' :=
  ⟨fun i hi => h.buffer i fun hil => hi (hsub hil), h.nBuffers, h.dataSize⟩

theorem SameOutside.modify (bi : ℕ) (f : VlibBuffer → VlibBuffer) : SameOutside [bi] vm (vm.modify bi f) :=
  ⟨fun i hi => buffer_modify_of_ne (by simpa using hi), rfl, rfl⟩

/-! ### Packets -/

/-- `NEXT_PRESENT`, and the packet goes on in `j`. -/
def NextIs (buffer : ℕ → VlibBuffer) (i j : ℕ) : Prop :=
  (buffer i).nextPresent = true ∧ (buffer i).nextBuffer = j
deriving Decidable

/-- The packet at `bi` is made of the buffers `l`. -/
structure Packet (vm : Vm) (bi : ℕ) (l : List ℕ) : Prop where
  head : l.head? = some bi
  linked : l.IsChain (NextIs vm.buffer)
  last : ∀ i, l.getLast? = some i → (vm.buffer i).nextPresent = false
  nodup : l.Nodup
  lt : ∀ i ∈ l, i < vm.nBuffers

instance : Decidable (Packet vm bi l) :=
  decidable_of_iff (l.head? = some bi ∧ l.IsChain (NextIs vm.buffer) ∧
      (∀ i ∈ l.getLast?, (vm.buffer i).nextPresent = false) ∧ l.Nodup ∧ ∀ i ∈ l, i < vm.nBuffers)
    ⟨fun ⟨head, linked, last, nodup, lt⟩ => ⟨head, linked, last, nodup, lt⟩,
      fun h => ⟨h.head, h.linked, h.last, h.nodup, h.lt⟩⟩

theorem Packet.exists_cons (h : Packet vm bi l) : ∃ rest, l = bi :: rest := by
  cases l with
  | nil => simpa using h.head
  | cons i rest =>
    have hi : i = bi := by simpa using h.head
    exact ⟨rest, by rw [hi]⟩

theorem Packet.head_mem (h : Packet vm bi l) : bi ∈ l := by
  obtain ⟨rest, rfl⟩ := h.exists_cons
  exact mem_cons_self

theorem chainFrom_eq {buffer : ℕ → VlibBuffer} {n : ℕ} {rest : List ℕ} (hn : (bi :: rest).length ≤ n)
    (hlinked : (bi :: rest).IsChain (NextIs buffer))
    (hlast : ∀ i, (bi :: rest).getLast? = some i → (buffer i).nextPresent = false) :
    chainFrom buffer n bi = bi :: rest := by
  induction rest generalizing bi n with
  | nil =>
    obtain ⟨n, rfl⟩ : ∃ k, n = k + 1 := ⟨n - 1, by simp at hn; omega⟩
    have hbi := hlast bi rfl
    simp [chainFrom, hbi]
  | cons j rest ih =>
    obtain ⟨n, rfl⟩ : ∃ k, n = k + 1 := ⟨n - 1, by simp at hn; omega⟩
    obtain ⟨⟨hnext, rfl⟩, hrest⟩ := isChain_cons_cons.mp hlinked
    rw [chainFrom, if_pos hnext]
    congr 1
    exact ih (by simpa using hn) hrest fun i hi => hlast i (by simpa using hi)

section
variable (h : Packet vm bi l)
include h

theorem Packet.length_le : l.length ≤ vm.nBuffers := by
  have hsub : l ⊆ range vm.nBuffers := fun i hi => mem_range.mpr (h.lt i hi)
  simpa using (h.nodup.subperm hsub).length_le

theorem Packet.chain_eq : vm.chain bi = l := by
  have hlen := h.length_le
  obtain ⟨rest, rfl⟩ := h.exists_cons
  exact chainFrom_eq hlen h.linked h.last

/-- A packet is the same as long as the links of its own buffers are. -/
theorem Packet.of_links (hn : vm'.nBuffers = vm.nBuffers)
    (hl : ∀ i ∈ l, (vm'.buffer i).nextPresent = (vm.buffer i).nextPresent ∧
      (vm'.buffer i).nextBuffer = (vm.buffer i).nextBuffer) : Packet vm' bi l := by
  refine ⟨h.head, ?_, fun i hi => ?_, h.nodup, fun i hi => by rw [hn]; exact h.lt i hi⟩
  · refine List.IsChain.imp_of_mem_imp ?_ h.linked
    rintro i j hi - ⟨hp, hj⟩
    exact ⟨by rw [(hl i hi).1, hp], by rw [(hl i hi).2, hj]⟩
  · rw [(hl i (mem_of_getLast? hi)).1]
    exact h.last i hi

/-- One buffer changes, but not in its links. -/
theorem Packet.modify {i : ℕ} (hp : (f (vm.buffer i)).nextPresent = (vm.buffer i).nextPresent)
    (hb : (f (vm.buffer i)).nextBuffer = (vm.buffer i).nextBuffer) : Packet (vm.modify i f) bi l := by
  refine h.of_links rfl fun j _ => ?_
  rcases eq_or_ne j i with rfl | hj
  · rw [buffer_modify_self, hp, hb]
    exact ⟨rfl, rfl⟩
  · rw [buffer_modify_of_ne hj]
    exact ⟨rfl, rfl⟩

theorem Packet.congr (hs : SameOutside m vm vm') (hd : l.Disjoint m) :
    Packet vm' bi l :=
  h.of_links hs.nBuffers fun i hi => by simp [hs.buffer i (hd hi)]

end

/-- Within a packet each buffer leads to the next. -/
theorem Packet.next {i j : ℕ} (h : Packet vm bi (l ++ i :: j :: m)) : NextIs vm.buffer i j :=
  (isChain_cons_cons.mp (isChain_append.mp h.linked).2.1).1

/-- The rest of a packet, from one of its buffers on. -/
theorem Packet.drop {i : ℕ} (h : Packet vm bi (l ++ i :: m)) : Packet vm i (i :: m) :=
  ⟨rfl, (isChain_append.mp h.linked).2.1, fun j hj => h.last j (by simp [getLast?_append, hj]),
    (nodup_append.mp h.nodup).2.1, fun j hj => h.lt j (mem_append_right l hj)⟩

/-- A packet that ends in one of its buffers: nothing is present behind it. -/
theorem Packet.cut {i : ℕ} (h : Packet vm bi (l ++ i :: m)) (hn : vm'.nBuffers = vm.nBuffers)
    (hl : ∀ j ∈ l, (vm'.buffer j).nextPresent = (vm.buffer j).nextPresent ∧
      (vm'.buffer j).nextBuffer = (vm.buffer j).nextBuffer) (hi : (vm'.buffer i).nextPresent = false) :
    Packet vm' bi (l ++ [i]) := by
  have hsub : (l ++ [i]).Sublist (l ++ i :: m) := List.Sublist.append_left (by simp) l
  have hlinked : (l ++ [i]).IsChain (NextIs vm.buffer) :=
    List.IsChain.prefix h.linked ⟨m, by simp⟩
  refine ⟨?_, ?_, fun j hj => ?_, h.nodup.sublist hsub, fun j hj => by rw [hn]; exact h.lt j (hsub.subset hj)⟩
  · have := h.head
    cases l <;> simpa using this
  · rw [isChain_append] at hlinked ⊢
    obtain ⟨hl₁, -, hl₂⟩ := hlinked
    have hkeep : ∀ j ∈ l, ∀ k, NextIs vm.buffer j k → NextIs vm'.buffer j k := fun j hj k hk =>
      ⟨by rw [(hl j hj).1]; exact hk.1, by rw [(hl j hj).2]; exact hk.2⟩
    exact ⟨List.IsChain.imp_of_mem_imp (fun j k hj _ => hkeep j hj k) hl₁, isChain_singleton i,
      fun j hj k hk => hkeep j (mem_of_getLast? hj) k (hl₂ j hj k hk)⟩
  · have hj' : j = i := by simpa using hj.symm
    rw [hj', hi]

/-- Linked buffers become a packet when nothing is present behind the last of them. -/
theorem Packet.of_linked {last : ℕ} (hhead : l.head? = some bi) (hlinked : l.IsChain (NextIs vm.buffer))
    (hlast : l.getLast? = some last) (hnodup : l.Nodup) (hlt : ∀ i ∈ l, i < vm.nBuffers) :
    Packet (vm.modify last fun b => { b with nextPresent := false }) bi l := by
  obtain ⟨init, rfl⟩ := getLast?_eq_some_iff.mp hlast
  refine ⟨hhead, ?_, fun i hi => ?_, hnodup, hlt⟩
  · rw [isChain_append] at hlinked ⊢
    obtain ⟨hl₁, -, hl₂⟩ := hlinked
    have hkeep : ∀ i ∈ init, ∀ k, NextIs vm.buffer i k →
        NextIs (vm.modify last fun b => { b with nextPresent := false }).buffer i k := by
      intro i hi k hk
      have hne : i ≠ last := fun hil => disjoint_of_nodup_append hnodup hi (by simp [hil])
      rw [NextIs, buffer_modify_of_ne hne]
      exact hk
    exact ⟨List.IsChain.imp_of_mem_imp (fun i k hi _ => hkeep i hi k) hl₁, isChain_singleton last,
      fun i hi k hk => hkeep i (mem_of_getLast? hi) k (hl₂ i hi k hk)⟩
  · obtain rfl : i = last := by simpa using hi.symm
    rw [buffer_modify_self]

/-- A packet is chained behind another one. -/
theorem Packet.join {init : List ℕ} {last : ℕ} (h : Packet vm bi (init ++ [last])) (h' : Packet vm bj m)
    (hd : (init ++ [last]).Disjoint m) (hn : vm'.nBuffers = vm.nBuffers) (hlast : NextIs vm'.buffer last bj)
    (hl : ∀ i ∈ init ++ m, (vm'.buffer i).nextPresent = (vm.buffer i).nextPresent ∧
      (vm'.buffer i).nextBuffer = (vm.buffer i).nextBuffer) : Packet vm' bi (init ++ [last] ++ m) := by
  obtain ⟨rest, rfl⟩ := h'.exists_cons
  have hkeep : ∀ i ∈ init ++ (bj :: rest), ∀ k, NextIs vm.buffer i k → NextIs vm'.buffer i k := fun i hi k hk =>
    ⟨by rw [(hl i hi).1]; exact hk.1, by rw [(hl i hi).2]; exact hk.2⟩
  obtain ⟨hinit, -, hend⟩ := isChain_append.mp h.linked
  refine ⟨?_, ?_, fun i hi => ?_, nodup_append'.mpr ⟨h.nodup, h'.nodup, hd⟩, fun i hi => ?_⟩
  · have := h.head
    cases init <;> simpa using this
  · rw [isChain_append, isChain_append]
    refine ⟨⟨?_, isChain_singleton last, ?_⟩, ?_, ?_⟩
    · exact List.IsChain.imp_of_mem_imp (fun i k hi _ => hkeep i (mem_append_left _ hi) k) hinit
    · exact fun i hi k hk => hkeep i (mem_append_left _ (mem_of_getLast? hi)) k (hend i hi k hk)
    · exact List.IsChain.imp_of_mem_imp (fun i k hi _ => hkeep i (mem_append_right _ hi) k) h'.linked
    · intro i hi k hk
      obtain rfl : last = i := by simpa using hi
      obtain rfl : bj = k := by simpa using hk
      exact hlast
  · rw [getLast?_append] at hi
    obtain ⟨j, hj⟩ : ∃ j, (bj :: rest).getLast? = some j := ⟨_, getLast?_eq_some_getLast (by simp)⟩
    rw [hj, some_or] at hi
    obtain rfl := some.inj hi
    rw [(hl j (mem_append_right _ (mem_of_getLast? hj))).1]
    exact h'.last j hj
  · rw [hn]
    rcases mem_append.mp hi with hi | hi
    · exact h.lt i hi
    · exact h'.lt i hi

/-! ### What packets hold -/

@[simp] theorem length_bytes : b.bytes.length = b.currentLength := by
  simp [bytes]

theorem getElem?_bytes {k : ℕ} (h : k < b.currentLength) : b.bytes[k]? = some (b.current k) := by
  simp [bytes, h]

/-- The current region says what a buffer holds. -/
theorem bytes_congr {b b' : VlibBuffer} (hdata : b'.data = b.data) (hcur : b'.currentData = b.currentData)
    (hlen : b'.currentLength = b.currentLength) : b'.bytes = b.bytes := by
  rw [bytes, bytes, hlen]
  exact map_congr_left fun k _ => by rw [current, current, hdata, hcur]

@[simp] theorem contents_nil : vm.contents [] = [] := rfl
@[simp] theorem contents_cons : vm.contents (bi :: l) = (vm.buffer bi).bytes ++ vm.contents l := rfl
@[simp] theorem contents_append : vm.contents (l ++ m) = vm.contents l ++ vm.contents m := by
  simp [contents]

theorem contents_congr_bytes (h : ∀ i ∈ l, (vm'.buffer i).bytes = (vm.buffer i).bytes) :
    vm'.contents l = vm.contents l := by
  induction l with
  | nil => rfl
  | cons i l ih =>
    rw [contents_cons, contents_cons, h i mem_cons_self]
    exact congrArg _ (ih fun j hj => h j (mem_cons_of_mem i hj))

theorem contents_congr (h : ∀ i ∈ l, vm'.buffer i = vm.buffer i) : vm'.contents l = vm.contents l :=
  contents_congr_bytes fun i hi => by rw [h i hi]

/-- One buffer changes, but not in what it holds. -/
theorem contents_modify (hdata : (f (vm.buffer bi)).data = (vm.buffer bi).data)
    (hcur : (f (vm.buffer bi)).currentData = (vm.buffer bi).currentData)
    (hlen : (f (vm.buffer bi)).currentLength = (vm.buffer bi).currentLength) :
    (vm.modify bi f).contents l = vm.contents l := by
  refine contents_congr_bytes fun i _ => ?_
  rcases eq_or_ne i bi with rfl | hi
  · rw [buffer_modify_self]
    exact bytes_congr hdata hcur hlen
  · rw [buffer_modify_of_ne hi]

theorem SameOutside.contents (hs : SameOutside m vm vm') (hd : l.Disjoint m) : vm'.contents l = vm.contents l :=
  contents_congr fun i hi => hs.buffer i (hd hi)

/-- Taking the front off a buffer. -/
theorem bytes_advance (n : ℕ) : (b.advance n).bytes = b.bytes.drop n := by
  refine ext_getElem (by simp [advance]) fun k _ _ => ?_
  simp only [bytes, advance, current, getElem_map, getElem_range,
    getElem_drop]
  congr 1
  omega

/-- Cutting a buffer off. -/
theorem bytes_cut {n : ℕ} (h : n ≤ b.currentLength) :
    ({ b with currentLength := n } : VlibBuffer).bytes = b.bytes.take n := by
  refine ext_getElem (by simp [h]) fun k _ _ => ?_
  simp [bytes, current]

theorem current_store (i k : ℕ) (bs : Bytes) : (b.store k bs).current i =
    if k ≤ i ∧ i < k + bs.length then bs.getD (i - k) 0 else b.current i := by
  simp only [store, current]
  by_cases h : k ≤ i ∧ i < k + bs.length
  · rw [if_pos (by omega), if_pos h]
    congr 1
    omega
  · rw [if_neg (by omega), if_neg h]

theorem current_store_of_lt {i k : ℕ} (bs : Bytes) (h : i < k) :
    (b.store k bs).current i = b.current i := by
  rw [current_store, if_neg (by omega)]

/-- Writing into the current region. -/
theorem bytes_store {k : ℕ} {bs : Bytes} (h : k + bs.length ≤ b.currentLength) :
    (b.store k bs).bytes = writeAt b.bytes k bs := by
  have hlen : (writeAt b.bytes k bs).length = b.bytes.length := length_writeAt (by rw [length_bytes]; exact h)
  refine ext_getElem (by rw [hlen, length_bytes, length_bytes]; rfl) fun i hi _ => ?_
  simp only [bytes, getElem_map, getElem_range, current, store, writeAt]
  rcases lt_or_ge i k with hik | hik
  · rw [if_neg (by omega), getElem_append_left (by simp; omega), getElem_append_left (by simp; omega)]
    simp [current]
  · rcases lt_or_ge i (k + bs.length) with hib | hib
    · rw [if_pos (by omega), getElem_append_left (by simp; omega), getElem_append_right (by simp; omega)]
      have hidx : (b.currentData + (i : ℤ) - (b.currentData + (k : ℤ))).toNat = i - k := by omega
      simp only [hidx, length_take, length_map, length_range]
      rw [getD_eq_getElem?_getD, getElem?_eq_getElem (by omega), getD_some]
      congr 1
      omega
    · rw [if_neg (by omega), getElem_append_right (by simp; omega)]
      simp only [getElem_drop, getElem_map, getElem_range, length_append, length_take,
        length_map, length_range]
      congr 3
      omega

/-! ### Lengths -/

theorem Packet.rest_eq_nil {rest : List ℕ} (h : Packet vm bi (bi :: rest)) :
    (vm.buffer bi).nextPresent = false ↔ rest = [] := by
  cases rest with
  | nil => simpa using h.last bi rfl
  | cons j rest =>
    have hnext : NextIs vm.buffer bi j := (isChain_cons_cons.mp h.linked).1
    simp [hnext.1]

theorem length_contents (vm : Vm) (l : List ℕ) :
    (vm.contents l).length = (l.map fun i => (vm.buffer i).currentLength).sum := by
  induction l with
  | nil => rfl
  | cons i l ih => simp [ih]

/-- The length of a packet is told by its first buffer, or counted. -/
theorem Packet.lengthInChain_eq {rest : List ℕ} (h : Packet vm bi (bi :: rest)) :
    vm.vlibBufferLengthInChain bi = (vm.buffer bi).currentLength +
      if (vm.buffer bi).nextPresent && (vm.buffer bi).totalLengthValid then
        ((vm.buffer bi).totalLengthNotIncludingFirstBuffer % 2 ^ 32).toNat
      else (vm.contents rest).length := by
  unfold vlibBufferLengthInChain
  cases hnext : (vm.buffer bi).nextPresent with
  | false => simp [hnext, h.rest_eq_nil.mp hnext]
  | true =>
    cases hvalid : (vm.buffer bi).totalLengthValid with
    | true => simp [hnext, hvalid]
    | false => simp [hnext, hvalid, h.chain_eq, length_contents]

/-! ### Freeing -/

theorem sameOutside_putBack : SameOutside [bi] vm (vm.putBack bi) := by
  refine ⟨fun i hi => ?_, rfl, rfl⟩
  simp only [putBack]
  exact buffer_modify_of_ne (by simpa using hi)

/-- A sequence of buffers goes back. -/
theorem foldl_putBack (l : List ℕ) (vm : Vm) :
    SameOutside l vm (l.foldl putBack vm) ∧ (l.foldl putBack vm).freed = vm.freed ++ l := by
  induction l generalizing vm with
  | nil => exact ⟨.refl _ _, by simp⟩
  | cons i l ih =>
    obtain ⟨hsame, hfreed⟩ := ih (vm.putBack i)
    exact ⟨sameOutside_putBack.trans hsame, by rw [foldl_cons, hfreed]; simp [putBack]⟩

theorem Packet.freeOne (h : Packet vm bi l) :
    SameOutside l vm (vm.vlibBufferFreeOne bi) ∧ (vm.vlibBufferFreeOne bi).freed = vm.freed ++ l := by
  rw [vlibBufferFreeOne, h.chain_eq]
  exact foldl_putBack l vm

/-- Packets that are apart from each other are released one after the other. -/
theorem foldl_release {f : Vm → ℕ → Vm} (hf : ∀ {vm bi l}, Packet vm bi l → SameOutside l vm (f vm bi))
    {ch : ℕ → List ℕ} (hpk : ∀ bi ∈ l, Packet vm bi (ch bi)) (hnd : (l.flatMap ch).Nodup) :
    SameOutside (l.flatMap ch) vm (l.foldl f vm) := by
  induction l generalizing vm with
  | nil => exact .refl _ _
  | cons bi l ih =>
    have hsame := hf (hpk bi mem_cons_self)
    have hpk' : ∀ bj ∈ l, Packet (f vm bi) bj (ch bj) := by
      intro bj hbj
      refine (hpk bj (mem_cons_of_mem bi hbj)).congr hsame fun i hi hib => ?_
      exact disjoint_of_nodup_append hnd hib (mem_flatMap.mpr ⟨bj, hbj, hi⟩)
    rw [foldl_cons, flatMap_cons]
    exact hsame.trans (ih hpk' (nodup_append.mp hnd).2.1)

/-- A buffer that holds `text`, and zeroes behind it. -/
def bufferOf (text : Bytes) : VlibBuffer :=
  { currentData := 0, currentLength := text.length, nextPresent := false, nextBuffer := 0
    totalLengthValid := false, totalLengthNotIncludingFirstBuffer := 0, refCount := 1
    data := fun k => text.getD k.toNat 0 }

/-- Two buffers, 0 and 1, and no others. -/
def twoBuffers (b₀ b₁ : VlibBuffer) : Vm :=
  { buffer := fun i => if i = 0 then b₀ else b₁, nBuffers := 2, dataSize := 2048, available := [], freed := [] }

end Vpp.Vlib
