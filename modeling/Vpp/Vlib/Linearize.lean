import Vpp.Vlib.Chain

/-! `vlib_buffer_chain_linearize` keeps what a packet holds.

    The bytes move forward inside the packet's own buffers. At any time the packet is in three parts: what
    has arrived at its place, what is still to be read in the source buffer, and the buffers behind that
    one. The destination is never in front of the source:

        [done] [done . ]  [        ]  [  unread]  [rest] [rest]
                  ^ dst                  ^ src

    When both are in the same buffer, `dst ≤ src`, so a copy overwrites only what has been read. -/

namespace Vpp.Vlib
open Vpp.Schemes List Function Linearize

variable {vm₀ : Vm} {bi : ℕ} {l done todo front rest : List ℕ} {s : Linearize} {text : Bytes}

/-- A buffer that is nobody else's, with its current region in the data area. -/
@[mk_iff]
structure Owned (dataSize : ℕ) (b : VlibBuffer) : Prop where
  refCount : b.refCount = 1
  headRoom : -128 ≤ b.currentData
  area : b.currentData + b.currentLength ≤ dataSize

instance (dataSize : ℕ) (b : VlibBuffer) : Decidable (Owned dataSize b) := decidable_of_iff' _ (owned_iff dataSize b)

/-- What is still to be read in the source buffer. -/
def Linearize.unread (s : Linearize) : Bytes :=
  (range s.srcLen).map fun k : ℕ => (s.vm.buffer s.b).data (s.src + k)

@[simp] theorem length_unread : s.unread.length = s.srcLen := by simp [unread]

/-- The loop is on its way: the packet `l` is `done`, the destination, `todo`; and from the destination on it
    is `front`, the source, `rest`. -/
structure Copying (vm₀ : Vm) (bi : ℕ) (l : List ℕ) (text : Bytes) (done todo front rest : List ℕ)
    (s : Linearize) : Prop where
  split : l = done ++ s.dstB :: todo
  source : s.dstB :: todo = front ++ s.b :: rest
  packet : Packet s.vm bi l
  same : SameOutside l vm₀ s.vm
  freed : s.vm.freed = vm₀.freed
  text : s.vm.contents (done ++ [s.dstB]) ++ s.unread ++ s.vm.contents rest = text
  remLen : s.remLen = s.srcLen + (s.vm.contents rest).length
  remLen_lt : s.remLen < 2 ^ 16
  dst : s.dst = (s.vm.buffer s.dstB).currentData + (s.vm.buffer s.dstB).currentLength
  dstLen : (s.dstLen : ℤ) = s.vm.dataSize - s.dst
  behind : s.b = s.dstB → s.srcLen = 0 ∨ s.dst ≤ s.src
  started : s.b ≠ s.dstB → (s.vm.buffer s.b).currentData ≤ s.src
  area : 0 < s.srcLen → s.src + s.srcLen ≤ s.vm.dataSize
  owned : ∀ i ∈ rest, Owned s.vm.dataSize (s.vm.buffer i)
  todoRef : ∀ i ∈ todo, (s.vm.buffer i).refCount = 1 ∧ -128 ≤ (s.vm.buffer i).currentData
  toFree : s.toFree = 0
  nBuffers : 0 < s.nBuffers
  dataSize : 0 < s.vm.dataSize ∧ s.vm.dataSize + 128 < 2 ^ 16

namespace Copying

section
variable (h : Copying vm₀ bi l text done todo front rest s)
include h

theorem nodup :
    (s.dstB :: todo).Nodup ∧ s.dstB ∉ done ∧ s.dstB ∉ todo := by
  have hl := h.packet.nodup
  rw [h.split, nodup_append] at hl
  obtain ⟨-, hd, hne⟩ := hl
  exact ⟨hd, fun hmem => hne _ hmem _ mem_cons_self rfl, (nodup_cons.mp hd).1⟩

theorem source_nodup :
    (front ++ s.b :: rest).Nodup := h.source ▸ h.nodup.1

/-- The destination is not behind the source. -/
theorem dstB_not_mem_rest : s.dstB ∉ rest := by
  intro hmem
  have hn := h.source_nodup
  have hsrc := h.source
  cases front with
  | nil =>
    obtain ⟨hb, -⟩ := cons.inj hsrc
    exact (nodup_cons.mp hn).1 (hb ▸ hmem)
  | cons i front =>
    obtain ⟨hi, -⟩ := cons.inj hsrc
    exact (nodup_cons.mp hn).1 (hi ▸ mem_append_right front (mem_cons_of_mem s.b hmem))

end

/-! ### The next source buffer -/

/-- One step of the search for a source that holds something. -/
theorem stepSrc {b : ℕ} (h : Copying vm₀ bi l text done todo front (b :: rest) s) (hs : s.srcLen = 0) :
    Copying vm₀ bi l text done todo (front ++ [s.b]) rest
      { s with b := b, src := (s.vm.buffer b).currentData, srcLen := (s.vm.buffer b).currentLength } := by
  have hne : b ≠ s.dstB := fun hb => h.dstB_not_mem_rest (hb ▸ mem_cons_self)
  have hown := h.owned b mem_cons_self
  have hread : s.unread = [] := eq_nil_of_length_eq_zero (by simp [hs])
  refine { h with source := by simp [h.source], text := ?_, remLen := ?_, behind := fun hb => absurd hb hne,
                  started := fun _ => le_refl _, area := fun _ => hown.area,
                  owned := fun i hi => h.owned i (mem_cons_of_mem b hi) }
  · have ht := h.text
    rw [hread, contents_cons] at ht
    rw [← ht, append_nil, append_assoc]
    rfl
  · have hr := h.remLen
    rw [contents_cons, length_append, length_bytes, hs] at hr
    simpa using hr

theorem seekSrc_remLen (n : ℕ) (s : Linearize) : (seekSrc n s).remLen = s.remLen := by
  induction n generalizing s with
  | zero => rfl
  | succ n ih =>
    rw [seekSrc]
    split
    · split
      · exact ih _
      · rfl
    · rfl

/-- Where something is left to copy, the search finds a source that holds some of it. -/
theorem seekSrc (h : Copying vm₀ bi l text done todo front rest s) (hrem : 0 < s.remLen) {n : ℕ}
    (hn : rest.length ≤ n) :
    ∃ front' rest', Copying vm₀ bi l text done todo front' rest' (seekSrc n s) ∧
      0 < (seekSrc n s).srcLen := by
  induction rest generalizing front s n with
  | nil =>
    have hr := h.remLen
    rw [contents_nil, length_nil] at hr
    have hsame : seekSrc n s = s := by
      cases n with
      | zero => rfl
      | succ n => rw [seekSrc, if_neg (by omega)]
    exact ⟨front, [], by rwa [hsame], by rw [hsame]; omega⟩
  | cons b rest ih =>
    obtain ⟨n, rfl⟩ : ∃ k, n = k + 1 := ⟨n - 1, by simp at hn; omega⟩
    rcases eq_zero_or_pos s.srcLen with hs | hs
    · have hnext : NextIs s.vm.buffer s.b b := by
        have hp := h.packet
        rw [h.split, h.source, ← append_assoc] at hp
        exact hp.next
      rw [seekSrc, if_pos hs, if_pos hnext.1, hnext.2]
      exact ih (h.stepSrc hs) hrem (by simpa using hn)
    · rw [seekSrc, if_neg (by omega)]
      exact ⟨front, b :: rest, h, hs⟩

/-! ### The next destination -/

/-- A full destination has nothing left to read in it. -/
theorem front_ne_nil (h : Copying vm₀ bi l text done todo front rest s) (hs : 0 < s.srcLen)
    (hd : s.dstLen = 0) : ∃ front', front = s.dstB :: front' := by
  cases front with
  | nil =>
    obtain ⟨hb, -⟩ := cons.inj h.source
    have harea := h.area hs
    have hlen := h.dstLen
    rcases h.behind hb.symm with h0 | hle
    · omega
    · rw [hd] at hlen
      omega
  | cons i front =>
    obtain ⟨rfl, -⟩ := cons.inj h.source
    exact ⟨front, rfl⟩

/-- The next destination is started empty. -/
theorem startDst {d : ℕ} {todo' front' : List ℕ}
    (h : Copying vm₀ bi l text done (d :: todo') (s.dstB :: front') rest s) :
    Copying vm₀ bi l text (done ++ [s.dstB]) todo' front' rest (s.startDst d) ∧ 0 < (s.startDst d).dstLen := by
  have hsplit : l = (done ++ [s.dstB]) ++ d :: todo' := by rw [h.split]; simp
  have hsource : d :: todo' = front' ++ s.b :: rest := tail_eq_of_cons_eq h.source
  have hnodup := h.packet.nodup
  rw [hsplit, nodup_append] at hnodup
  obtain ⟨-, htodo, hdone⟩ := hnodup
  have hd_done : d ∉ done ++ [s.dstB] := fun hmem => hdone _ hmem _ mem_cons_self rfl
  have hd_rest : d ∉ rest := by
    intro hmem
    rw [hsource] at htodo
    cases front' with
    | nil =>
      obtain ⟨rfl, -⟩ := cons.inj hsource
      exact (nodup_cons.mp htodo).1 hmem
    | cons i front' =>
      obtain ⟨rfl, -⟩ := cons.inj hsource
      exact (nodup_cons.mp htodo).1 (mem_append_right front' (mem_cons_of_mem s.b hmem))
  obtain ⟨href, hroom⟩ := h.todoRef d mem_cons_self
  have hsize := h.dataSize
  set vm := s.vm.modify d fun b => { b with currentData := min 0 b.currentData, currentLength := 0 } with hvm
  have hother : ∀ i, i ≠ d → vm.buffer i = s.vm.buffer i := fun i hi => buffer_modify_of_ne hi
  have hself : vm.buffer d =
    { s.vm.buffer d with currentData := min 0 (s.vm.buffer d).currentData, currentLength := 0 } :=
    buffer_modify_self
  have hdata : ∀ i, (vm.buffer i).data = (s.vm.buffer i).data := by
    intro i
    rcases eq_or_ne i d with rfl | hi
    · rw [hself]
    · rw [hother i hi]
  have hlen : ((s.startDst d).dstLen : ℤ) = s.vm.dataSize - min 0 (s.vm.buffer d).currentData := by
    simp only [Linearize.startDst, ← hvm, hself]
    rw [Int.toNat_of_nonneg (Int.emod_nonneg _ (by decide)), Int.emod_eq_of_lt (by omega) (by omega)]
  have hrest : vm.contents rest = s.vm.contents rest :=
    contents_congr fun i hi => hother i fun hid => hd_rest (hid ▸ hi)
  have hunread : (s.startDst d).unread = s.unread := by
    simp only [Linearize.unread, Linearize.startDst, ← hvm, hdata]
  refine ⟨{ split := hsplit, source := hsource, packet := ?_, same := ?_, freed := h.freed, text := ?_, remLen := ?_,
            remLen_lt := h.remLen_lt, dst := ?_, dstLen := ?_, behind := ?_, started := ?_, area := h.area,
            owned := ?_, todoRef := ?_, toFree := h.toFree, nBuffers := Nat.succ_pos _, dataSize := hsize }, ?_⟩
  · refine h.packet.of_links rfl fun i _ => ?_
    rcases eq_or_ne i d with rfl | hi
    · exact ⟨by simp only [Linearize.startDst, ← hvm, hself], by simp only [Linearize.startDst, ← hvm, hself]⟩
    · exact ⟨by simp only [Linearize.startDst, ← hvm, hother i hi],
        by simp only [Linearize.startDst, ← hvm, hother i hi]⟩
  · have hdl : [d] ⊆ l := by
      rw [hsplit]
      simp
    have hmod : SameOutside [d] s.vm vm := .modify d _
    exact (h.same.trans hmod).mono (append_subset.mpr ⟨List.Subset.refl l, hdl⟩)
  · have hd : (vm.buffer d).bytes = [] := by
      apply eq_nil_of_length_eq_zero
      rw [length_bytes, hself]
    have hpre : vm.contents (done ++ [s.dstB]) = s.vm.contents (done ++ [s.dstB]) :=
      contents_congr fun i hi => hother i fun hid => hd_done (hid ▸ hi)
    rw [hunread]
    have ht := h.text
    rw [← ht, ← hrest, ← hpre]
    simp [Linearize.startDst, ← hvm, hd]
  · have hr := h.remLen
    rw [← hrest] at hr
    exact hr
  · simp only [Linearize.startDst, ← hvm, hself]
    simp
  · rw [hlen]
    simp only [Linearize.startDst, ← hvm, hself]
    rfl
  · intro hb
    right
    have hbd : s.b = d := hb
    have hne : s.b ≠ s.dstB := by
      rintro heq
      exact hd_done (mem_append_right done (by simp [← hbd, heq]))
    have hst := h.started hne
    simp only [Linearize.startDst, ← hvm, hself]
    rw [hbd] at hst
    omega
  · intro hb
    have hbd : s.b ≠ d := hb
    have hne : s.b ≠ s.dstB := by
      rintro heq
      have hsub : s.b ∈ d :: todo' := by rw [hsource]; simp
      exact h.nodup.2.2 (heq ▸ hsub)
    simp only [Linearize.startDst, ← hvm, hother _ hbd]
    exact h.started hne
  · intro i hi
    simp only [Linearize.startDst, ← hvm, hother i fun hid => hd_rest (hid ▸ hi)]
    exact h.owned i hi
  · intro i hi
    have hid : i ≠ d := fun hid => (nodup_cons.mp htodo).1 (hid ▸ hi)
    simp only [Linearize.startDst, ← hvm, hother i hid]
    exact h.todoRef i (mem_cons_of_mem d hi)
  · omega

/-- The loop never runs out of destinations. -/
theorem seekDst (h : Copying vm₀ bi l text done todo front rest s) (hs : 0 < s.srcLen) :
    ∃ s' done' todo' front', s.seekDst = .go s' ∧ Copying vm₀ bi l text done' todo' front' rest s' ∧
      0 < s'.srcLen ∧ 0 < s'.dstLen ∧ s'.remLen = s.remLen := by
  rcases eq_zero_or_pos s.dstLen with hd | hd
  · obtain ⟨front', rfl⟩ := h.front_ne_nil hs hd
    obtain ⟨d, todo', rfl⟩ : ∃ d todo', todo = d :: todo' := by
      cases todo with
      | nil => exact absurd h.source (by simp)
      | cons d todo' => exact ⟨d, todo', rfl⟩
    have hnext : NextIs s.vm.buffer s.dstB d := by
      have hp := h.packet
      rw [h.split] at hp
      exact hp.next
    obtain ⟨hstart, hpos⟩ := h.startDst
    refine ⟨s.startDst d, _, _, _, ?_, hstart, hs, hpos, rfl⟩
    have href := (h.todoRef d mem_cons_self).1
    simp [seekDst, hd, hnext.1, hnext.2, href]
  · exact ⟨s, _, _, _, by rw [Linearize.seekDst, if_neg (by omega)], h, hs, hd, rfl⟩

/-! ### The copy -/

/-- What the destination holds after a copy to its end. -/
theorem bytes_extend (b : VlibBuffer) {dst : ℤ} (hdst : dst = b.currentData + b.currentLength)
    (n : ℕ) (g : ℤ → Byte) :
    ({ b with data := fun i => if dst ≤ i ∧ i < dst + n then g (i - dst) else b.data i
              currentLength := b.currentLength + n } : VlibBuffer).bytes =
      b.bytes ++ (range n).map fun k : ℕ => g k := by
  rw [VlibBuffer.bytes, range_add, map_append, map_map]
  congr 1
  · refine map_congr_left fun k hk => ?_
    have hk := mem_range.mp hk
    simp only [VlibBuffer.current]
    rw [if_neg (by omega)]
  · refine map_congr_left fun k hk => ?_
    have hk := mem_range.mp hk
    simp only [comp, VlibBuffer.current]
    rw [if_pos (by omega)]
    congr 1
    omega

theorem copyStep_dstB : (s.copyStep.vm.buffer s.dstB) =
    { s.vm.buffer s.dstB with
      data := fun i => if s.dst ≤ i ∧ i < s.dst + (min s.srcLen s.dstLen : ℕ)
        then (s.vm.buffer s.b).data (s.src + (i - s.dst)) else (s.vm.buffer s.dstB).data i
      currentLength := (s.vm.buffer s.dstB).currentLength + min s.srcLen s.dstLen } := by
  simp [copyStep, Vm.copy]

theorem copyStep_of_ne {i : ℕ} (h : i ≠ s.dstB) : s.copyStep.vm.buffer i = s.vm.buffer i := by
  simp only [copyStep, Vm.copy]
  rw [buffer_modify_of_ne h, buffer_modify_of_ne h]

section

variable (h : Copying vm₀ bi l text done todo front rest s)
include h

/-- What is left to read is not what has been written. -/
theorem unread_copyStep (hs : 0 < s.srcLen) :
    s.unread = ((range (min s.srcLen s.dstLen)).map fun k : ℕ => (s.vm.buffer s.b).data (s.src + k)) ++
      s.copyStep.unread := by
  have hsplit : s.srcLen = min s.srcLen s.dstLen + (s.srcLen - min s.srcLen s.dstLen) := by omega
  rw [unread]
  conv_lhs => rw [hsplit, range_add, map_append, map_map]
  congr 1
  refine map_congr_left fun k _ => ?_
  rcases eq_or_ne s.b s.dstB with hb | hb
  · have hle : s.dst ≤ s.src := (h.behind hb).resolve_left (by omega)
    have hbuf : s.copyStep.vm.buffer s.copyStep.b = s.copyStep.vm.buffer s.dstB := congrArg _ hb
    rw [hbuf, copyStep_dstB]
    simp only [comp, copyStep, hb]
    rw [if_neg (by omega)]
    congr 1
    omega
  · have hbuf : s.copyStep.vm.buffer s.copyStep.b = s.vm.buffer s.b := copyStep_of_ne hb
    rw [hbuf]
    simp only [comp, copyStep]
    congr 1
    omega

/-- One round of the loop. -/
theorem copyStep (hs : 0 < s.srcLen) :
    Copying vm₀ bi l text done todo front rest s.copyStep := by
  obtain ⟨hnodup, hdone, htodo⟩ := h.nodup
  have hrest := h.dstB_not_mem_rest
  have hother : ∀ i, i ≠ s.dstB → s.copyStep.vm.buffer i = s.vm.buffer i := fun i hi => copyStep_of_ne hi
  have hcr : s.copyStep.vm.contents rest = s.vm.contents rest :=
    contents_congr fun i hi => hother i fun hid => hrest (hid ▸ hi)
  have hrem := h.remLen
  have hremLt := h.remLen_lt
  have hdstLen := h.dstLen
  refine { split := h.split, source := h.source, packet := ?_, same := ?_, freed := h.freed, text := ?_, remLen := ?_
           remLen_lt := Nat.mod_lt _ (by decide), dst := ?_, dstLen := ?_, behind := ?_, started := ?_, area := ?_
           owned := ?_, todoRef := ?_, toFree := h.toFree, nBuffers := h.nBuffers, dataSize := h.dataSize }
  · refine h.packet.of_links rfl fun i _ => ?_
    rcases eq_or_ne i s.dstB with rfl | hi
    · exact ⟨by rw [copyStep_dstB], by rw [copyStep_dstB]⟩
    · exact ⟨by rw [hother i hi], by rw [hother i hi]⟩
  · have hmod : SameOutside [s.dstB] s.vm s.copyStep.vm :=
      ⟨fun i hi => hother i (by simpa using hi), rfl, rfl⟩
    have hdl : [s.dstB] ⊆ l := by
      rw [h.split]
      simp
    exact (h.same.trans hmod).mono (append_subset.mpr ⟨List.Subset.refl l, hdl⟩)
  · have hcd : s.copyStep.vm.contents done = s.vm.contents done :=
      contents_congr fun i hi => hother i fun hid => hdone (hid ▸ hi)
    have hbytes : (s.copyStep.vm.buffer s.dstB).bytes = (s.vm.buffer s.dstB).bytes ++
        (range (min s.srcLen s.dstLen)).map fun k : ℕ => (s.vm.buffer s.b).data (s.src + k) := by
      rw [copyStep_dstB]
      exact bytes_extend _ h.dst _ fun j => (s.vm.buffer s.b).data (s.src + j)
    have hdst : s.copyStep.dstB = s.dstB := rfl
    rw [← h.text, unread_copyStep h hs, hcr, hdst, contents_append, contents_append, hcd,
      contents_cons, contents_cons,
      contents_nil, contents_nil, hbytes]
    simp
  · rw [hcr]
    simp only [Linearize.copyStep]
    omega
  · rw [show s.copyStep.dstB = s.dstB from rfl, copyStep_dstB]
    simp only [Linearize.copyStep, h.dst]
    omega
  · simp only [Linearize.copyStep, Vm.copy, dataSize_modify]
    omega
  · intro hb
    simp only [Linearize.copyStep]
    have hb' : s.b = s.dstB := hb
    rcases h.behind hb' with h0 | hle
    · omega
    · right
      omega
  · intro hb
    have hb' : s.b ≠ s.dstB := hb
    rw [show s.copyStep.b = s.b from rfl, hother _ hb']
    simp only [Linearize.copyStep]
    have := h.started hb'
    omega
  · intro hpos
    have harea := h.area hs
    simp only [Linearize.copyStep, Vm.copy, dataSize_modify] at hpos ⊢
    omega
  · intro i hi
    rw [hother i fun hid => hrest (hid ▸ hi)]
    exact h.owned i hi
  · intro i hi
    rw [hother i fun hid => htodo (hid ▸ hi)]
    exact h.todoRef i hi

/-! ### The loop -/

/-- The loop comes to its end with everything copied. -/
theorem loop {fuel : ℕ} (hfuel : s.remLen ≤ fuel) :
    ∃ s' done' todo' front' rest', loop fuel s = some (.stop s') ∧
      Copying vm₀ bi l text done' todo' front' rest' s' ∧ s'.remLen = 0 := by
  induction fuel generalizing s done todo front rest with
  | zero =>
    have h0 : s.remLen = 0 := by omega
    exact ⟨s, _, _, _, _, by rw [loop, if_pos h0], h, h0⟩
  | succ fuel ih =>
    rcases eq_zero_or_pos s.remLen with h0 | hpos
    · exact ⟨s, _, _, _, _, by rw [loop, if_pos h0], h, h0⟩
    · have hlen : rest.length ≤ s.vm.nBuffers := by
        have hl := h.packet.length_le
        rw [h.split, h.source] at hl
        simp only [length_append, length_cons] at hl
        omega
      obtain ⟨front₁, rest₁, h₁, hs₁⟩ := h.seekSrc hpos hlen
      have hrem₁ : (Linearize.seekSrc s.vm.nBuffers s).remLen = s.remLen := seekSrc_remLen _ s
      obtain ⟨s₂, done₂, todo₂, front₂, hgo, h₂, hs₂, hd₂, hrem₂⟩ := h₁.seekDst hs₁
      have hrem := h₂.remLen
      have hdec : s₂.copyStep.remLen ≤ fuel := by
        simp only [Linearize.copyStep]
        omega
      obtain ⟨s', done', todo', front', rest', hloop, h', h0'⟩ := ih (h₂.copyStep hs₂) hdec
      refine ⟨s', done', todo', front', rest', ?_, h', h0'⟩
      rw [loop, if_neg (by omega), hgo]
      exact hloop

end

end Copying

/-! ### What follows the loop -/

/-- What the linearisation leaves: the packet is the part `kept` of its buffers, the part `cut` is freed. -/
structure Linearized (vm : Vm) (bi : ℕ) (l kept cut : List ℕ) (vm' : Vm) : Prop where
  split : l = kept ++ cut
  packet : Packet vm' bi kept
  contents : vm'.contents kept = vm.contents l
  same : SameOutside l vm vm'
  freed : vm'.freed = vm.freed ++ cut

/-- What the end of the loop leaves behind the destination is cut off. -/
theorem Copying.finish (h : Copying vm₀ bi l text done todo front rest s) (h0 : s.remLen = 0) :
    ∃ vm', s.finish = (s.nBuffers, vm') ∧ Packet vm' bi (done ++ [s.dstB]) ∧
      vm'.contents (done ++ [s.dstB]) = text ∧ SameOutside l vm₀ vm' ∧ vm'.freed = vm₀.freed ++ todo := by
  obtain ⟨hnodup, hdone, htodo⟩ := h.nodup
  have htext : s.vm.contents (done ++ [s.dstB]) = text := by
    have hrem := h.remLen
    have hread : s.unread = [] := eq_nil_of_length_eq_zero (by rw [length_unread]; omega)
    have hrest : s.vm.contents rest = [] := eq_nil_of_length_eq_zero (by omega)
    simpa [hread, hrest] using h.text
  have hmem : ∀ i ∈ done ++ [s.dstB], i ∈ l := by
    intro i hi
    rw [h.split]
    simp only [mem_append, mem_cons] at hi ⊢
    tauto
  have hbl : s.b ∈ l := by
    rw [h.split, h.source]
    simp
  set vm₁ := s.vm.modify s.b (·.lessTotal s.remLen) with hvm₁
  have hp₁ : Packet vm₁ bi l := h.packet.modify rfl rfl
  have hc₁ : vm₁.contents (done ++ [s.dstB]) = text := by
    rw [← htext]
    exact contents_modify rfl rfl rfl
  have hs₁ : SameOutside l vm₀ vm₁ :=
    (h.same.trans (.modify s.b _)).mono (append_subset.mpr ⟨List.Subset.refl l, by simpa using hbl⟩)
  have hfin : s.finish = (s.nBuffers, Linearize.cutBehind vm₁ s.dstB s.nBuffers) := by
    simp only [Linearize.finish, h.toFree, ne_eq, not_true_eq_false, ↓reduceIte, hvm₁]
  rw [hfin]
  cases todo with
  | nil =>
    have hlast : (vm₁.buffer s.dstB).nextPresent = false := hp₁.last _ (by rw [h.split]; simp)
    refine ⟨vm₁, ?_, by rw [h.split] at hp₁; exact hp₁, hc₁, hs₁, by rw [append_nil]; exact h.freed⟩
    rw [cutBehind, if_neg (by simp [hlast])]
  | cons d todo =>
    have hnext : NextIs vm₁.buffer s.dstB d := by
      rw [h.split] at hp₁
      exact hp₁.next
    set vm₂ := vm₁.modify s.dstB fun b => { b with nextPresent := false } with hvm₂
    have hcut : Packet vm₂ bi (done ++ [s.dstB]) := by
      rw [h.split] at hp₁
      refine hp₁.cut rfl (fun j hj => ?_) (by rw [hvm₂, buffer_modify_self])
      have hjd : j ≠ s.dstB := fun hjd => hdone (hjd ▸ hj)
      rw [hvm₂, buffer_modify_of_ne hjd]
      exact ⟨rfl, rfl⟩
    have hd : Packet vm₂ d (d :: todo) := by
      rw [h.split, ← singleton_append, ← append_assoc] at hp₁
      exact hp₁.drop.congr (.modify s.dstB _) (by simpa using htodo)
    obtain ⟨hsame₃, hfreed₃⟩ := hd.freeOne
    have hdisj : (done ++ [s.dstB]).Disjoint (d :: todo) := by
      have hl := h.packet.nodup
      rw [h.split, ← singleton_append, ← append_assoc] at hl
      exact disjoint_of_nodup_append hl
    set vm₃ := vm₂.vlibBufferFreeOne d with hvm₃
    have hc₃ : vm₃.contents (done ++ [s.dstB]) = text := by
      rw [hsame₃.contents hdisj, ← hc₁]
      exact contents_modify rfl rfl rfl
    have hs₃ : SameOutside l vm₀ vm₃ := by
      refine ((hs₁.trans (.modify s.dstB _)).trans hsame₃).mono ?_
      have hsub : [s.dstB] ++ d :: todo ⊆ l := by
        rw [h.split]
        exact subset_append_right done _
      rw [append_assoc]
      exact append_subset.mpr ⟨List.Subset.refl l, hsub⟩
    have hp₃ : Packet vm₃ bi (done ++ [s.dstB]) := hcut.congr hsame₃ hdisj
    have hfreed : vm₃.freed = vm₀.freed ++ (d :: todo) := by
      rw [hfreed₃]
      exact congrArg (· ++ _) h.freed
    rw [cutBehind, if_pos hnext.1, hnext.2, ← hvm₂, ← hvm₃]
    rcases eq_or_ne s.nBuffers 1 with hn | hn
    · rw [if_pos hn]
      refine ⟨_, rfl, hp₃.modify rfl rfl, ?_, ?_, hfreed⟩
      · rw [← hc₃]
        exact contents_modify rfl rfl rfl
      · refine (hs₃.trans (.modify s.dstB _)).mono (append_subset.mpr ⟨List.Subset.refl l, ?_⟩)
        simpa using hmem s.dstB (by simp)
    · rw [if_neg hn]
      exact ⟨_, rfl, hp₃, hc₃, hs₃, hfreed⟩

/-- The linearisation of a packet that nobody else has a part of returns, and keeps what the packet holds. -/
theorem vlibBufferChainLinearize_spec {vm : Vm} (hp : Packet vm bi l)
    (hown : ∀ i ∈ l, Owned vm.dataSize (vm.buffer i))
    (hsize : 0 < vm.dataSize ∧ vm.dataSize + 128 < 2 ^ 16)
    (hlen : vm.vlibBufferLengthInChain bi = (vm.contents l).length)
    (hlt : (vm.contents l).length < (vm.buffer bi).currentLength + 2 ^ 16) :
    ∃ n vm' kept cut, vlibBufferChainLinearize vm bi = some (n + 1, vm') ∧ Linearized vm bi l kept cut vm' := by
  obtain ⟨rest, rfl⟩ := hp.exists_cons
  cases hnext : (vm.buffer bi).nextPresent with
  | false =>
    obtain rfl := hp.rest_eq_nil.mp hnext
    exact ⟨0, vm, [bi], [], by simp [vlibBufferChainLinearize, hnext],
      ⟨by simp, hp, rfl, .refl _ _, by simp⟩⟩
  | true =>
    have hbi := hown bi mem_cons_self
    rw [contents_cons, length_append, length_bytes] at hlen hlt
    set dstLen := ((vm.dataSize - ((vm.buffer bi).currentData + (vm.buffer bi).currentLength)) % 2 ^ 16).toNat
      with hdstLen
    have hroom : (dstLen : ℤ) = vm.dataSize - ((vm.buffer bi).currentData + (vm.buffer bi).currentLength) := by
      have h1 := hbi.headRoom
      have h2 := hbi.area
      rw [hdstLen, Int.toNat_of_nonneg (Int.emod_nonneg _ (by decide)), Int.emod_eq_of_lt (by omega) (by omega)]
    set vm₁ := vm.modify bi (·.lessTotal dstLen) with hvm₁
    have hother : ∀ i, i ≠ bi → vm₁.buffer i = vm.buffer i := fun i hi => buffer_modify_of_ne hi
    have hsame₁ : SameOutside (bi :: rest) vm vm₁ :=
      (SameOutside.modify bi _).mono (cons_subset_cons bi (nil_subset rest))
    have hpk₁ : Packet vm₁ bi (bi :: rest) := hp.modify rfl rfl
    have hnot : bi ∉ rest := (nodup_cons.mp hp.nodup).1
    have hne : ∀ i ∈ rest, i ≠ bi := fun i hi hib => hnot (hib ▸ hi)
    have hcr : vm₁.contents rest = vm.contents rest := contents_congr fun i hi => hother i (hne i hi)
    have hstart : Copying vm bi (bi :: rest) (vm.contents (bi :: rest)) [] rest [] rest
        { vm := vm₁, b := bi, src := 0, srcLen := 0, dstB := bi
          dst := (vm.buffer bi).currentData + (vm.buffer bi).currentLength, dstLen := dstLen
          remLen := (vm.contents rest).length, nBuffers := 1, toFree := 0 } :=
      { split := rfl, source := rfl, packet := hpk₁
        same := hsame₁, freed := rfl
        text := by
          have hself : (vm₁.buffer bi).bytes = (vm.buffer bi).bytes := by
            rw [hvm₁, buffer_modify_self]
            exact bytes_congr rfl rfl rfl
          simp [unread, hself, hcr]
        remLen := by simp [hcr], remLen_lt := by simp only; omega
        dst := by simp only [hvm₁, buffer_modify_self, VlibBuffer.lessTotal]
        dstLen := hroom, behind := fun _ => Or.inl rfl, started := fun h => absurd rfl h
        area := fun h => absurd h (by simp)
        owned := fun i hi => by
          rw [hother i (hne i hi)]
          exact hown i (mem_cons_of_mem bi hi)
        todoRef := fun i hi => by
          rw [hother i (hne i hi)]
          exact ⟨(hown i (mem_cons_of_mem bi hi)).refCount, (hown i (mem_cons_of_mem bi hi)).headRoom⟩
        toFree := rfl, nBuffers := one_pos, dataSize := hsize }
    obtain ⟨s, done, todo, front, rest', hloop, hs, h0⟩ :=
      hstart.loop (show _ ≤ vm.vlibBufferLengthInChain bi by simp only; omega)
    obtain ⟨vm', hfin, hpk, htext, hsame, hfreed⟩ := hs.finish h0
    have hpos := hs.nBuffers
    refine ⟨s.nBuffers - 1, vm', done ++ [s.dstB], todo, ?_, ?_⟩
    · have hrem : (vm.vlibBufferLengthInChain bi - (vm.buffer bi).currentLength) % 2 ^ 16 =
          (vm.contents rest).length := by
        rw [hlen]
        omega
      simp only [vlibBufferChainLinearize, hnext, hbi.refCount, hrem, ← hdstLen, ← hvm₁, hloop, hfin]
      simp only [Bool.not_true, Bool.false_eq_true, ↓reduceIte, ne_eq, not_true_eq_false, Option.some.injEq,
        Prod.mk.injEq, and_true]
      omega
    · exact ⟨by rw [hs.split]; simp, hpk, htext, hsame, hfreed⟩

/-- Linearising a packet touches no other one: the packet holds what it held, in a first part of its buffers, and
    the others have been freed, once each. -/
theorem linearize_keeps_packets {vm : Vm} (hp : Packet vm bi l) (hown : ∀ i ∈ l, Owned vm.dataSize (vm.buffer i))
    (hsize : 0 < vm.dataSize ∧ vm.dataSize + 128 < 2 ^ 16)
    (hlen : vm.vlibBufferLengthInChain bi = (vm.contents l).length)
    (hlt : (vm.contents l).length < (vm.buffer bi).currentLength + 2 ^ 16) :
    ∃ n vm' kept cut, vlibBufferChainLinearize vm bi = some (n + 1, vm') ∧ l = kept ++ cut ∧
      vm'.freed = vm.freed ++ cut ∧ Packet vm' bi kept ∧ vm'.contents kept = vm.contents l ∧
      ∀ bj m, Packet vm bj m → m.Disjoint l → Packet vm' bj m ∧ vm'.contents m = vm.contents m := by
  obtain ⟨n, vm', kept, cut, hret, h⟩ := vlibBufferChainLinearize_spec hp hown hsize hlen hlt
  refine ⟨n, vm', kept, cut, hret, h.split, h.freed, h.packet, h.contents, fun bj m hm hdisj => ?_⟩
  exact ⟨hm.congr h.same hdisj, h.same.contents hdisj⟩

/-- Two buffers of one byte become one. -/
theorem linearize_keeps_packets_two :
    let vm : Vm := ⟨fun i => { bufferOf [7] with nextPresent := i == 0, nextBuffer := 1 }, 2, 64, [], []⟩
    ∃ n vm' kept, vlibBufferChainLinearize vm 0 = some (n + 1, vm') ∧ vm'.contents kept = [7, 7] := by
  intro vm
  obtain ⟨n, vm', kept, _, hret, -, -, -, htext, -⟩ := @linearize_keeps_packets 0 [0, 1] vm (by decide) (by decide)
    (by decide) rfl (by decide)
  exact ⟨n, vm', kept, hret, htext⟩

end Vpp.Vlib
