import Vpp.Gso.GroArrivals

/-! Packets that have been put together.

    `Coalesced p rest` says that the packet at `p.bi` is `p`, with the payloads of `rest` behind it, and that all of
    them are of one connection and follow each other in the sequence space. It is so of one packet, and of another one
    chained behind (`Coalesced.append`). When such a packet leaves the table, its headers tell its length (`Merged`). -/

namespace Vpp.Gso
open Vpp.Schemes Vpp.Vlib List
open GroMain (fixupHeader)

/-! ### Writing into headers -/

section
variable {b b' : VlibBuffer} {k n : ℕ}

theorem be_congr_range (h : ∀ i, k ≤ i → i < k + n → b'.current i = b.current i) : be b' k n = be b k n := by
  rw [be, be]
  congr 1
  refine map_congr_left fun i hi => h _ (Nat.le_add_right k i) ?_
  have := mem_range.mp hi
  omega

theorem be_store_self (b : VlibBuffer) (k : ℕ) (bs : Bytes) : be (b.store k bs) k bs.length = ofBe bs := by
  rw [be]
  congr 1
  refine ext_getElem (by simp) fun i hi hi' => ?_
  rw [getElem_map, getElem_range, current_store, if_pos (by omega), Nat.add_sub_cancel_left,
    getD_eq_getElem?_getD, getElem?_eq_getElem hi', Option.getD_some]

theorem ipNextHeader_congr {l3 : ℕ} (version : IpVersion)
    (h : ∀ k n, k + n ≤ l3 + 20 → be b' k n = be b k n) :
    ipNextHeader b' l3 version = ipNextHeader b l3 version := by
  cases version with
  | ip4 => rw [ipNextHeader, ipNextHeader, ip4HeaderBytes, ip4HeaderBytes, h (l3 + 9) 1 (by omega), h l3 1 (by omega)]
  | ip6 => rw [ipNextHeader, ipNextHeader, h (l3 + 6) 1 (by omega)]

/-- The headers of a TCP packet are found in what comes before the flags of its TCP header. -/
theorem headerOffsets_congr {v : VnetBuffer} {isL2 : Bool} (htcp : (headerOffsets b v isL2).tcp = true)
    (hplain : (headerOffsets b v isL2).tunnel = none)
    (hip : (headerOffsets b v isL2).l3HdrOffset + 20 ≤ (headerOffsets b v isL2).l4HdrOffset)
    (h : ∀ i, i < (headerOffsets b v isL2).l4HdrOffset + 13 → b'.current i = b.current i) :
    headerOffsets b' v isL2 = headerOffsets b v isL2 := by
  have hbe : ∀ k n, k + n ≤ (headerOffsets b v isL2).l4HdrOffset + 13 → be b' k n = be b k n := fun k n hkn =>
    be_congr_range fun i _ hi => h i (by omega)
  have hether : ethernetType b' 0 = ethernetType b 0 := by
    simp only [ethernetType, zero_add, hbe 12 2 (by omega), hbe 16 2 (by omega), hbe 20 2 (by omega)]
  have hversion : groIsIp4OrIp6Packet b' v isL2 = groIsIp4OrIp6Packet b v isL2 := by
    simp only [groIsIp4OrIp6Packet, hether, hbe 0 1 (by omega)]
  unfold headerOffsets at htcp hplain hip hbe ⊢
  rw [hversion]
  cases hv : groIsIp4OrIp6Packet b v isL2 with
  | none => rfl
  | some version =>
    simp only [hv] at htcp hplain hip hbe ⊢
    have hproto := ipNextHeader_of_tcp htcp hplain
    have hparse := vnetGenericHeaderOffsetParser_of_tcp hproto
    rw [hparse] at hip hbe ⊢
    simp only [tcpOffsets] at hip hbe
    have hnext : ipNextHeader b' (if isL2 then (ethernetType b 0).2 else v.saveRewriteLength) version =
        ipNextHeader b (if isL2 then (ethernetType b 0).2 else v.saveRewriteLength) version :=
      ipNextHeader_congr version fun k n hkn => hbe k n (by omega)
    have htcp' := hbe ((ipNextHeader b (if isL2 then (ethernetType b 0).2 else v.saveRewriteLength) version).2 + 12) 1
      (le_refl _)
    have hproto' := hproto
    rw [← hnext, ← hether] at hproto'
    rw [vnetGenericHeaderOffsetParser_of_tcp hproto', tcpOffsets, tcpOffsets, hether, hnext]
    simp only [tcpHeaderBytes, htcp']

end

/-! ### One packet made of several -/

/-- The packets follow each other in the sequence space, from `seq` on. -/
def Consecutive (isL2 : Bool) : ℕ → List Arrival → Prop
  | _, [] => True
  | seq, a :: ps => a.seqNumber isL2 = seq ∧ Consecutive isL2 ((seq + (a.payload isL2).length) % 2 ^ 32) ps

def buffersOf (ps : List Arrival) : List ℕ := ps.flatMap Arrival.chain

def payloads (isL2 : Bool) (ps : List Arrival) : Bytes := ps.flatMap (Arrival.payload isL2)

/-- The packet at `p.bi` is `p` with the payloads of the others behind it. -/
structure Coalesced (isL2 : Bool) (vm : Vm) (vnet : ℕ → VnetBuffer) (p : Arrival) (rest : List Arrival) : Prop where
  whole : Whole vm p.bi (buffersOf (p :: rest))
  first : SameBytes p.first (vm.buffer p.bi)
  vnet : vnet p.bi = p.vnet
  contents : vm.contents (buffersOf (p :: rest)) = p.contents.take (p.gho isL2).hdrSz ++ payloads isL2 (p :: rest)
  lt : (vm.contents (buffersOf (p :: rest))).length < tcpMaxGsoSz
  tcp : ∀ q ∈ p :: rest, SoundTcp isL2 q ∧ (q.gho isL2).tcp = true
  headers : (p.gho isL2).hdrSz ≤ p.first.currentLength
  headers_le : (p.gho isL2).hdrSz ≤ p.contents.length
  one : ∀ q ∈ rest, q.connection isL2 = p.connection isL2
  seqs : Consecutive isL2 (p.seqNumber isL2) (p :: rest)

variable {isL2 : Bool} {a p : Arrival} {ps rest : List Arrival} {vm vm' : Vm} {vnet vnet' : ℕ → VnetBuffer}

theorem consecutive_append {seq : ℕ} (hseq : seq < 2 ^ 32) : Consecutive isL2 seq (ps ++ [a]) ↔
    Consecutive isL2 seq ps ∧ a.seqNumber isL2 = (seq + (payloads isL2 ps).length) % 2 ^ 32 := by
  induction ps generalizing seq with
  | nil =>
    simp only [nil_append, Consecutive, and_true, true_and, payloads, flatMap_nil, length_nil,
      add_zero, Nat.mod_eq_of_lt hseq]
  | cons q ps ih =>
    have hlen : ((seq + (q.payload isL2).length) % 2 ^ 32 + (payloads isL2 ps).length) % 2 ^ 32 =
        (seq + (payloads isL2 (q :: ps)).length) % 2 ^ 32 := by
      rw [Nat.mod_add_mod, payloads, payloads, flatMap_cons, length_append, add_assoc]
    rw [cons_append, Consecutive, Consecutive, ih (Nat.mod_lt _ (by decide)), hlen, and_assoc]

theorem Arrival.seqNumber_lt (isL2 : Bool) (a : Arrival) : a.seqNumber isL2 < 2 ^ 32 := by
  have h := ofBe_lt ((range 4).map fun i => a.first.current ((a.gho isL2).l4HdrOffset + 4 + i))
  rw [length_map, length_range] at h
  exact h

/-- Apart from the packet's buffers anything may happen. -/
theorem Coalesced.congr {m : List ℕ} (h : Coalesced isL2 vm vnet p rest) (hs : SameOutside m vm vm')
    (hv : ∀ i, i ∉ m → vnet' i = vnet i) (hd : (buffersOf (p :: rest)).Disjoint m) :
    Coalesced isL2 vm' vnet' p rest := by
  have hbi : p.bi ∉ m := hd h.whole.packet.head_mem
  have hcontents : vm'.contents (buffersOf (p :: rest)) = vm.contents (buffersOf (p :: rest)) := hs.contents hd
  exact { h with
    whole := h.whole.congr hs hd
    first := by rw [hs.buffer p.bi hbi]; exact h.first
    vnet := by rw [hv p.bi hbi]; exact h.vnet
    contents := by rw [hcontents]; exact h.contents
    lt := by rw [hcontents]; exact h.lt }

/-- A packet by itself. -/
theorem Ready.coalesced {pktLen : ℕ} (h : Ready isL2 a pktLen vm) (hv : vnet a.bi = a.vnet)
    (hlen : groPaddedPacketSize < pktLen) : Coalesced isL2 vm vnet a [] := by
  obtain ⟨hbytes, hcontents⟩ := h.unpadded hlen
  have hbuf : buffersOf [a] = a.chain := by simp [buffersOf]
  have hhdr : (a.gho isL2).hdrSz ≤ a.first.currentLength := by rw [← hbytes.length]; exact h.headers
  have hpayload : payloads isL2 [a] = a.contents.drop (a.gho isL2).hdrSz := by
    simp only [payloads, flatMap_cons, flatMap_nil, append_nil, Arrival.payload]
    rw [← h.contents, hcontents]
  have hall : a.contents.length = pktLen := by
    have := congrArg List.length (h.contents.symm.trans hcontents)
    rw [length_take, ← h.length] at this
    have := h.le
    omega
  exact
    { whole := by rw [hbuf]; exact h.whole
      first := hbytes, vnet := hv
      contents := by rw [hbuf, hcontents, hpayload, take_append_drop]
      lt := by rw [hbuf, hcontents, hall]; exact h.lt
      tcp := by simpa using ⟨h.sound, h.tcp⟩
      headers := hhdr
      headers_le := by
        have := h.whole.head_le
        rw [hcontents, hbytes.length] at this
        exact hhdr.trans this
      one := by simp
      seqs := ⟨rfl, trivial⟩ }

/-- Another packet is chained behind. -/
theorem Coalesced.append {pktLen : ℕ} (h : Coalesced isL2 vm vnet p rest) (ha : Ready isL2 a pktLen vm)
    (hd : (buffersOf (p :: rest)).Disjoint a.chain) (hconn : a.connection isL2 = p.connection isL2)
    (hseq : a.seqNumber isL2 = (p.seqNumber isL2 + (payloads isL2 (p :: rest)).length) % 2 ^ 32)
    (hlt : (vm.contents (buffersOf (p :: rest))).length + (a.payload isL2).length < tcpMaxGsoSz) :
    Coalesced isL2 (groMergeBuffers (countLength vm p.bi) p.bi a.bi (a.payload isL2).length (a.gho isL2).hdrSz) vnet p
      (rest ++ [a]) ∧
    SameOutside (buffersOf (p :: rest) ++ a.chain) vm
      (groMergeBuffers (countLength vm p.bi) p.bi a.bi (a.payload isL2).length (a.gho isL2).hdrSz) := by
  have hfrom := countLength_from vm p.bi
  have hne : a.bi ∉ [p.bi] := by
    rw [mem_singleton]
    exact fun hc => hd h.whole.packet.head_mem (hc ▸ ha.whole.packet.head_mem)
  have hbehind : a.contents.take (a.ipEnd isL2) = (countLength vm p.bi).contents a.chain := by
    rw [hfrom.contents, ha.contents]
  have hpayload : (a.payload isL2).length =
      ((countLength vm p.bi).contents a.chain).length - (a.gho isL2).hdrSz := by
    rw [Arrival.payload, hbehind, length_drop]
  obtain ⟨hwhole, hcontents, hbytes, hsame⟩ := groMergeBuffers_spec h.whole.countLength
    (hfrom.packet ha.whole.packet) hd hfrom.valid
    (by rw [hfrom.same.buffer a.bi hne]; exact ha.headers) hpayload
    (by rw [hfrom.contents]; simp only [tcpMaxGsoSz] at hlt; omega)
  have hbuf : buffersOf (p :: (rest ++ [a])) = buffersOf (p :: rest) ++ a.chain := by simp [buffersOf]
  have hpay : payloads isL2 (p :: (rest ++ [a])) = payloads isL2 (p :: rest) ++ a.payload isL2 := by simp [payloads]
  rw [hfrom.contents, ← hbehind] at hcontents
  constructor
  · exact
      { whole := by rw [hbuf]; exact hwhole
        first := (h.first.trans (hfrom.bytes p.bi)).trans hbytes
        vnet := h.vnet
        contents := by rw [hbuf, hcontents, h.contents, hpay, append_assoc]; rfl
        lt := by rw [hbuf, hcontents, length_append]; exact hlt
        tcp := by
          intro q hq
          rw [← cons_append, mem_append, mem_singleton] at hq
          rcases hq with hq | rfl
          · exact h.tcp q hq
          · exact ⟨ha.sound, ha.tcp⟩
        headers := h.headers, headers_le := h.headers_le
        one := by
          intro q hq
          rcases mem_append.mp hq with hq | hq
          · exact h.one q hq
          · rw [mem_singleton.mp hq]
            exact hconn
        seqs := (consecutive_append (p.seqNumber_lt isL2)).mpr ⟨h.seqs, hseq⟩ }
  · refine (hfrom.same.trans hsame).mono fun i hi => ?_
    rcases mem_append.mp hi with hi | hi
    · rw [mem_singleton.mp hi]
      exact mem_append_left _ h.whole.packet.head_mem
    · exact hi

theorem Coalesced.payload_length (h : Coalesced isL2 vm vnet p rest) :
    u32 ((vm.contents (buffersOf (p :: rest))).length - (p.gho isL2).hdrSz) = (payloads isL2 (p :: rest)).length := by
  have hlt := h.lt
  have hlen := congrArg length h.contents
  have hhdr := h.headers_le
  simp only [tcpMaxGsoSz] at hlt
  rw [length_append, length_take] at hlen
  rw [u32]
  omega

/-! ### Packets that leave the table -/

/-- A buffer index that is written to `to`, with the buffers at that time. -/
structure Output where
  bi : ℕ
  vm : Vm
  vnet : VnetBuffer

open Output

def Output.chain (o : Output) : List ℕ := o.vm.chain o.bi
def Output.contents (o : Output) : Bytes := o.vm.contents o.chain
def Output.first (o : Output) : VlibBuffer := o.vm.buffer o.bi

/-- The bytes of the headers that are written when a packet leaves the table: the IP length, the acknowledgement and the
    flags of TCP. -/
def writtenBytes (gho : GenericHeaderOffset) : List ℕ :=
  (if gho.ip = some .ip4 then [gho.l3HdrOffset + 2, gho.l3HdrOffset + 3]
    else [gho.l3HdrOffset + 4, gho.l3HdrOffset + 5]) ++
  [gho.l4HdrOffset + 8, gho.l4HdrOffset + 9, gho.l4HdrOffset + 10, gho.l4HdrOffset + 11, gho.l4HdrOffset + 13]

/-- The packet returned is made of `p` and those of `rest`. -/
structure Merged (isL2 : Bool) (o : Output) (p : Arrival) (rest : List Arrival) : Prop where
  bi : o.bi = p.bi
  packet : Packet o.vm p.bi (buffersOf (p :: rest))
  tcp : ∀ q ∈ p :: rest, (q.gho isL2).tcp = true ∧ (q.gho isL2).tunnel = none
  one : ∀ q ∈ rest, q.connection isL2 = p.connection isL2
  seqs : Consecutive isL2 (p.seqNumber isL2) (p :: rest)
  header : ∀ k, k < (p.gho isL2).hdrSz → k ∉ writtenBytes (p.gho isL2) → o.contents[k]? = p.contents[k]?
  payload : o.contents.drop (p.gho isL2).hdrSz = payloads isL2 (p :: rest)
  ipLength : ipEnd o.first (p.gho isL2) = o.contents.length
  interfaces : o.vnet.swIfIndexRx = p.vnet.swIfIndexRx ∧ o.vnet.swIfIndexTx = p.vnet.swIfIndexTx

/-- Apart from its buffers anything may happen. -/
theorem Merged.congr {m : List ℕ} {v : VnetBuffer} {bi : ℕ} (h : Merged isL2 ⟨bi, vm, v⟩ p rest)
    (hs : SameOutside m vm vm') (hd : (buffersOf (p :: rest)).Disjoint m) : Merged isL2 ⟨bi, vm', v⟩ p rest := by
  obtain rfl : bi = p.bi := h.bi
  have hpacket := h.packet.congr hs hd
  have hcontents : (⟨p.bi, vm', v⟩ : Output).contents = (⟨p.bi, vm, v⟩ : Output).contents := by
    rw [contents, contents, chain, chain, hpacket.chain_eq, h.packet.chain_eq]
    exact hs.contents hd
  have hfirst : (⟨p.bi, vm', v⟩ : Output).first = (⟨p.bi, vm, v⟩ : Output).first :=
    hs.buffer p.bi (hd h.packet.head_mem)
  exact { h with
    packet := hpacket
    header := by rw [hcontents]; exact h.header
    payload := by rw [hcontents]; exact h.payload
    ipLength := by rw [hcontents, hfirst]; exact h.ipLength }

/-- A change of the headers that may be made on the way out: only the flags of TCP are different. -/
structure FlagsOnly (l4 : ℕ) (f : VlibBuffer → VlibBuffer) : Prop where
  current : ∀ b i, i ≠ l4 + 13 → (f b).current i = b.current i
  length : ∀ b, (f b).currentLength = b.currentLength
  nextPresent : ∀ b, (f b).nextPresent = b.nextPresent
  nextBuffer : ∀ b, (f b).nextBuffer = b.nextBuffer
  valid : ∀ b, (f b).totalLengthValid = b.totalLengthValid
  total : ∀ b, (f b).totalLengthNotIncludingFirstBuffer = b.totalLengthNotIncludingFirstBuffer

theorem flagsOnly_id (l4 : ℕ) : FlagsOnly l4 id := ⟨fun _ _ _ => rfl, fun _ => rfl, fun _ => rfl, fun _ => rfl,
  fun _ => rfl, fun _ => rfl⟩

theorem flagsOnly_store (l4 : ℕ) (flags : Byte) : FlagsOnly l4 (·.store (l4 + 13) [flags]) where
  current b i hi := by
    rw [current_store, if_neg]
    simp only [length_singleton]
    omega
  length _ := rfl
  nextPresent _ := rfl
  nextBuffer _ := rfl
  valid _ := rfl
  total _ := rfl

section
variable {b : VlibBuffer} {gho : GenericHeaderOffset} {len ack : ℕ}

/-- What `gro_fixup_header` writes. -/
theorem current_fixupHeader {k : ℕ} (hk : k ∉ writtenBytes gho) (hip : gho.ip ≠ none) :
    (fixupHeader b gho len ack).current k = b.current k := by
  simp only [writtenBytes, mem_append, mem_cons, not_mem_nil, or_false, not_or] at hk
  obtain ⟨hlen, h8, h9, h10, h11, -⟩ := hk
  rw [fixupHeader, current_store, if_neg (by rw [length_toBe]; omega)]
  rcases hv : gho.ip with _ | v
  · exact absurd hv hip
  · cases v with
    | ip4 =>
      simp only [hv, if_true, mem_cons, not_mem_nil, or_false, not_or] at hlen
      rw [current_store, if_neg (by rw [length_toBe]; omega)]
    | ip6 =>
      simp only [hv, reduceCtorEq, Option.some.injEq, if_false, mem_cons, not_mem_nil, or_false, not_or]
        at hlen
      rw [current_store, if_neg (by rw [length_toBe]; omega)]

theorem fixupHeader_links (b : VlibBuffer) (gho : GenericHeaderOffset) (len ack : ℕ) :
    (fixupHeader b gho len ack).nextPresent = b.nextPresent ∧
    (fixupHeader b gho len ack).nextBuffer = b.nextBuffer ∧
    (fixupHeader b gho len ack).currentLength = b.currentLength := by
  unfold fixupHeader
  split
  · exact ⟨rfl, rfl, rfl⟩
  · exact ⟨rfl, rfl, rfl⟩
  · exact ⟨rfl, rfl, rfl⟩

/-- The IP header then tells the length. -/
theorem ipEnd_fixupHeader (hl3 : gho.l3HdrOffset + 20 ≤ gho.l4HdrOffset)
    (hip : gho.ip = some .ip4 ∨ (gho.ip = some .ip6 ∧ gho.l4HdrOffset = gho.l3HdrOffset + 40))
    (hle : gho.l4HdrOffset ≤ len) (hlt : len < tcpMaxGsoSz) :
    ipEnd (fixupHeader b gho len ack) gho = len := by
  simp only [tcpMaxGsoSz] at hlt
  have hread : ∀ (b' : VlibBuffer) (k x : ℕ), k + 2 ≤ gho.l4HdrOffset → x < 2 ^ 16 →
      be ((b'.store k (toBe 2 x)).store (gho.l4HdrOffset + 8) (toBe 4 ack)) k 2 = x := by
    intro b' k x hk hx
    rw [be_congr_range (b := b'.store k (toBe 2 x)) fun i _ hi => current_store_of_lt _ _ (by omega)]
    have hself := be_store_self b' k (toBe 2 x)
    rw [length_toBe, ofBe_toBe (by omega)] at hself
    exact hself
  rcases hip with hip | ⟨hip, hl4⟩
  · simp only [ipEnd, fixupHeader, hip]
    rw [hread _ _ _ (by omega) (by rw [u32]; omega), u32]
    omega
  · simp only [ipEnd, fixupHeader, hip]
    rw [hread _ _ _ (by omega) (by rw [u32]; omega), u32]
    omega

end

theorem drop_bytes_congr {b b' : VlibBuffer} {n : ℕ} (hlen : b'.currentLength = b.currentLength)
    (h : ∀ k, n ≤ k → b'.current k = b.current k) : b'.bytes.drop n = b.bytes.drop n := by
  refine ext_getElem (by simp [hlen]) fun k _ _ => ?_
  simp only [VlibBuffer.bytes, getElem_drop, getElem_map, getElem_range]
  exact h _ (Nat.le_add_right n k)

/-- Only the flags change: the packet and its length are what they were. -/
theorem Whole.flags {bi l4 : ℕ} {l : List ℕ} {f : VlibBuffer → VlibBuffer} (h : Whole vm bi l)
    (hf : FlagsOnly l4 f) :
    Whole (vm.modify bi f) bi l ∧ ((vm.modify bi f).contents l).length = (vm.contents l).length := by
  have hpacket : Packet (vm.modify bi f) bi l := h.packet.modify (hf.nextPresent _) (hf.nextBuffer _)
  have hlen : ∀ m, ((vm.modify bi f).contents m).length = (vm.contents m).length := fun m => by
    rw [length_contents, length_contents]
    congr 1
    exact map_congr_left fun i _ => field_modify (g := VlibBuffer.currentLength) hf.length bi i
  refine ⟨⟨hpacket, ?_, by rw [hlen]; exact h.lt⟩, hlen l⟩
  rw [hlen, ← h.length]
  obtain ⟨rest, rfl⟩ := h.packet.exists_cons
  rw [hpacket.lengthInChain_eq, h.packet.lengthInChain_eq, hlen, buffer_modify_self, hf.length, hf.nextPresent,
    hf.valid, hf.total]

/-- Writing the fields of its headers makes a packet one that may leave. -/
theorem Coalesced.merged {v : VnetBuffer} (h : Coalesced isL2 vm vnet p rest)
    (hpacket : Packet vm' p.bi (buffersOf (p :: rest))) (hsame : SameOutside [p.bi] vm vm')
    (hlen : (vm'.buffer p.bi).currentLength = p.first.currentLength)
    (hcur : ∀ k, k ∉ writtenBytes (p.gho isL2) → (vm'.buffer p.bi).current k = p.first.current k)
    (hend : ipEnd (vm'.buffer p.bi) (p.gho isL2) = (vm.contents (buffersOf (p :: rest))).length)
    (hv : v.swIfIndexRx = p.vnet.swIfIndexRx ∧ v.swIfIndexTx = p.vnet.swIfIndexTx) :
    Merged isL2 ⟨p.bi, vm', v⟩ p rest := by
  obtain ⟨hsound, htcp⟩ := h.tcp p mem_cons_self
  obtain ⟨hhdr, -⟩ := hsound.offsets htcp
  have hl3 := hsound.ipHeader
  have hl4 := hsound.tcpHeader
  have hheaders := h.headers
  have hcontents := h.contents
  obtain ⟨tail, htail⟩ := h.whole.packet.exists_cons
  have hnot : p.bi ∉ tail := by
    have := h.whole.packet.nodup
    rw [htail] at this
    exact (nodup_cons.mp this).1
  have hrest : vm'.contents tail = vm.contents tail := hsame.contents (by simpa using hnot)
  have hchain : vm'.chain p.bi = p.bi :: tail := by rw [← htail]; exact hpacket.chain_eq
  have hout : vm'.contents (vm'.chain p.bi) = (vm'.buffer p.bi).bytes ++ vm.contents tail := by
    rw [hchain, contents_cons, hrest]
  rw [htail, contents_cons] at hcontents hend
  have hfirstLen : (vm.buffer p.bi).bytes.length = p.first.currentLength := by rw [length_bytes, h.first.length]
  refine ⟨rfl, hpacket, fun q hq => ⟨(h.tcp q hq).2, (h.tcp q hq).1.plain⟩, h.one, h.seqs, ?_, ?_, ?_,
    hv⟩
  · intro k hk hwritten
    have hkeep : p.contents[k]? = some (p.first.current k) := by
      have hget := congrArg (fun bs : Bytes => bs[k]?) hcontents
      rw [getElem?_append_left (by rw [hfirstLen]; omega), h.first.bytes, getElem?_bytes _ (by omega),
        getElem?_append_left (by rw [length_take]; have := h.headers_le; omega),
        getElem?_take_of_lt hk] at hget
      exact hget.symm
    rw [hkeep, Output.contents, Output.chain, hout, getElem?_append_left (by rw [length_bytes, hlen]; omega),
      getElem?_bytes _ (by rw [hlen]; omega), hcur k hwritten]
  · have hdrop : (vm'.buffer p.bi).bytes.drop (p.gho isL2).hdrSz = (vm.buffer p.bi).bytes.drop (p.gho isL2).hdrSz := by
      refine drop_bytes_congr (by rw [hlen, h.first.length]) fun k hk => ?_
      rw [hcur k, h.first.current]
      simp only [writtenBytes, mem_append, mem_cons, not_mem_nil, or_false, not_or]
      refine ⟨?_, by omega, by omega, by omega, by omega, by omega⟩
      split
      · simp only [mem_cons, not_mem_nil, or_false, not_or]
        omega
      · simp only [mem_cons, not_mem_nil, or_false, not_or]
        omega
    have hpayload := congrArg (drop (p.gho isL2).hdrSz) hcontents
    rw [drop_append_of_le_length (by rw [hfirstLen]; exact hheaders),
      drop_left' (by rw [length_take]; have := h.headers_le; omega)] at hpayload
    rw [Output.contents, Output.chain, hout, drop_append_of_le_length (by rw [length_bytes, hlen]; exact hheaders),
      hdrop, hpayload]
  · rw [Output.first, hend, Output.contents, Output.chain, hout, length_append, length_append, hfirstLen,
      length_bytes, hlen]

theorem groFixupHeader_interfaces (s : GroMain) (bi ack : ℕ) :
    ((s.groFixupHeader bi ack).vnet bi).swIfIndexRx = (s.vnet bi).swIfIndexRx ∧
    ((s.groFixupHeader bi ack).vnet bi).swIfIndexTx = (s.vnet bi).swIfIndexTx := by
  simp [GroMain.groFixupHeader]

theorem groFixupHeader_vnet_of_ne {s : GroMain} {bi ack i : ℕ} (h : i ≠ bi) :
    (s.groFixupHeader bi ack).vnet i = s.vnet i := Function.update_of_ne h _ _

/-- A packet that leaves the table. -/
theorem Coalesced.leave {s : GroMain} {f : VlibBuffer → VlibBuffer} (h : Coalesced isL2 vm vnet p rest)
    (hL2 : s.table.isL2 = isL2) (hf : FlagsOnly (p.gho isL2).l4HdrOffset f) (hvm : s.vm = vm.modify p.bi f)
    (hvnet : s.vnet = vnet) (ack : ℕ) :
    Merged isL2 ⟨p.bi, (s.groFixupHeader p.bi ack).vm, (s.groFixupHeader p.bi ack).vnet p.bi⟩ p rest ∧
    SameOutside [p.bi] vm (s.groFixupHeader p.bi ack).vm ∧
    ∀ i, i ∉ [p.bi] → (s.groFixupHeader p.bi ack).vnet i = vnet i := by
  subst hL2
  obtain ⟨hsound, htcp⟩ := h.tcp p mem_cons_self
  obtain ⟨hhdr, hip⟩ := hsound.offsets htcp
  have hl3 := hsound.ipHeader
  obtain ⟨hwhole, hlength⟩ := h.whole.flags hf
  rw [← hvm] at hwhole hlength
  have hfrom := countLength_from s.vm p.bi
  have hcur : ∀ i, i ≠ (p.gho s.table.isL2).l4HdrOffset + 13 →
    (s.vm.buffer p.bi).current i = p.first.current i := by
    intro i hi
    rw [hvm, buffer_modify_self, hf.current _ _ hi, h.first.current]
  have hcurLen : (s.vm.buffer p.bi).currentLength = p.first.currentLength := by
    rw [hvm, buffer_modify_self, hf.length, h.first.length]
  have hgho : headerOffsets (s.vm.buffer p.bi) (s.vnet p.bi) s.table.isL2 = p.gho s.table.isL2 := by
    rw [hvnet, h.vnet]
    exact headerOffsets_congr htcp hsound.plain hl3 fun i hi => hcur i (ne_of_lt hi)
  -- the first buffer, as it leaves
  have hout : (s.groFixupHeader p.bi ack).vm = (countLength s.vm p.bi).modify p.bi fun b =>
      fixupHeader b (p.gho s.table.isL2) (s.vm.vlibBufferLengthInChain p.bi) ack := by
    rw [GroMain.groFixupHeader, hgho]
  have hsame : SameOutside [p.bi] vm (s.groFixupHeader p.bi ack).vm := by
    have hflags : SameOutside [p.bi] vm s.vm := by rw [hvm]; exact SameOutside.modify _ _
    rw [hout]
    exact ((hflags.trans hfrom.same).trans (SameOutside.modify _ _)).mono (by simp)
  have hpacket : Packet (s.groFixupHeader p.bi ack).vm p.bi (buffersOf (p :: rest)) := by
    rw [hout]
    exact (hfrom.packet hwhole.packet).modify (fixupHeader_links _ _ _ _).1 (fixupHeader_links _ _ _ _).2.1
  have hfirst : (s.groFixupHeader p.bi ack).vm.buffer p.bi = fixupHeader ((countLength s.vm p.bi).buffer p.bi)
      (p.gho s.table.isL2) (vm.contents (buffersOf (p :: rest))).length ack := by
    rw [hout, buffer_modify_self, hwhole.length, hlength]
  have hheaders := h.headers
  have hle := h.whole.head_le
  rw [h.first.length] at hle
  refine ⟨h.merged hpacket hsame ?_ ?_ ?_ ?_, hsame, fun i hi => ?_⟩
  · rw [hfirst, (fixupHeader_links _ _ _ _).2.2, (hfrom.bytes p.bi).length, hcurLen]
  · intro k hk
    have hne : k ≠ (p.gho s.table.isL2).l4HdrOffset + 13 := by
      rintro rfl
      exact hk (by simp [writtenBytes])
    rw [hfirst, current_fixupHeader hk (by rcases hip with ⟨hip, -⟩ | ⟨hip, -⟩ <;> rw [hip] <;> simp),
      (hfrom.bytes p.bi).current, hcur k hne]
  · rw [hfirst]
    exact ipEnd_fixupHeader hl3 (hip.imp_left And.left) (by omega) h.lt
  · rw [← h.vnet, ← hvnet]
    exact groFixupHeader_interfaces s p.bi ack
  · rw [groFixupHeader_vnet_of_ne (by simpa using hi), hvnet]

end Vpp.Gso
