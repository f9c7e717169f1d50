import Vpp.Ip.Reass.Ip4Update

/-! What IPv4 reassembly emits was sent.

    A context is complete when it holds as many octets as the latest fragment without `more_fragments` says.
    The octets are counted once each, so they are all there if none lies behind that end. The source does
    not see to that: a fragment that lies behind an end announced later counts as well, and then the count
    is right and the datagram is not (`genuine_fails`).

        sent      [8 ............ 23] more,  [8 ... 15] last
        count      16 octets                  = 15 + 1, complete without the octets 0 to 7 -/

namespace Vpp.Ip
open Vpp.Schemes Vpp.Vlib List
open Range (iv)

variable {vm₀ vm : Vm} {got : List ℕ} {reass : Ip4FullReass} {bi maxReassLen thread now : ℕ}
  {custom : Option (ℕ × ℕ)} {u : Updated}

/-! ### What an update comes to -/

/-- What happens when a fragment has been put among the ranges. -/
theorem checkComplete_cases {reass : Ip4FullReass} {isCustom : Bool} {p : Probe}
    (h : checkComplete maxReassLen isCustom bi reass p = some u) :
    u.reass = { reass with ranges := p.ranges, dataLen := p.dataLen } ∧
      ((u.completed = true ∧ reass.lastPacketOctet ≠ noOctet ∧
        p.dataLen = (reass.lastPacketOctet + 1) % 2 ^ 32 ∧
          ip4FullReassFinalize p.vm p.ranges = some (.ok, u.vm) ∧ u.bi = p.ranges.head?.map Range.bi) ∨
        (u.completed = false ∧ u.rc ≠ .ok) ∨
        (u.completed = false ∧ u.rc = .ok ∧ u.vm = p.vm)) := by
  rw [checkComplete] at h
  split at h
  · rename_i hdone
    split at h
    · cases h
    · rename_i vm' hfin
      cases h
      exact ⟨rfl, .inl ⟨rfl, hdone.1, hdone.2, hfin, rfl⟩⟩
    · rename_i rc vm' hrc hfin
      cases h
      exact ⟨rfl, .inr (.inl ⟨rfl, hrc⟩)⟩
  · split at h
    · cases h
      refine ⟨rfl, .inr ?_⟩
      by_cases hn : reass.fragmentsN > maxReassLen
      · exact .inl ⟨rfl, by simp [hn]⟩
      · exact .inr ⟨rfl, by simp [hn], rfl⟩
    · cases h
      exact ⟨rfl, .inr (.inr ⟨rfl, rfl, rfl⟩)⟩

theorem Reassembling.touch (h : Reassembling vm₀ got vm reass) (now sendout : ℕ) :
    Reassembling vm₀ got vm { reass with lastHeard := now, sendoutThreadIndex := sendout } :=
  { h with }

/-- The ranges and the end of the datagram when a context has been completed. -/
structure Completed (vm₀ : Vm) (got : List ℕ) (u : Updated) (vm : Vm) : Prop where
  state : Reassembling vm₀ got vm u.reass
  octet : u.reass.lastPacketOctet ≠ noOctet
  count : u.reass.dataLen = (u.reass.lastPacketOctet + 1) % 2 ^ 32
  finalize : ip4FullReassFinalize vm u.reass.ranges = some (.ok, u.vm)
  first : u.bi = u.reass.ranges.head?.map Range.bi

/-- A fragment is stored or ignored, and the state goes on, or the context is complete. -/
theorem receive_spec (h : Reassembling vm₀ got vm reass) (ha : Arriving vm₀ (got ++ [bi]))
    (hu : ip4FullReassReceive maxReassLen thread now custom vm reass bi = some u) :
    (u.rc = .ok → u.completed = false → Reassembling vm₀ (got ++ [bi]) u.vm u.reass) ∧
      (u.completed = true → ∃ vm', Completed vm₀ (got ++ [bi]) u vm') := by
  rw [ip4FullReassReceive] at hu
  have h := h.touch now (if fragmentFirst (vm.buffer bi) = 0 then thread else reass.sendoutThreadIndex)
  rcases eq_or_ne got [] with rfl | hne
  · obtain ⟨reass', hupd, hstate⟩ := update_first maxReassLen custom h ha
    rw [hupd] at hu
    cases hu
    exact ⟨fun _ _ => hstate, fun hc => by cases hc⟩
  · obtain ⟨reass', p, hupd, hstate⟩ := update_next maxReassLen custom h hne ha
    rw [hupd] at hu
    obtain ⟨hreass, hcases⟩ := checkComplete_cases hu
    rw [← hreass] at hstate
    rcases hcases with ⟨hc, hoct, hcount, hfin, hfirst⟩ | ⟨hc, hrc⟩ | ⟨hc, hrc, hvm⟩
    · refine ⟨fun _ h0 => absurd hc (by simp [h0]), fun _ => ⟨p.vm, hstate, ?_, ?_, ?_, ?_⟩⟩
      · rw [hreass]
        exact hoct
      · rw [hreass]
        exact hcount
      · rw [hreass]
        exact hfin
      · rw [hreass]
        exact hfirst
    · exact ⟨fun h0 => absurd h0 hrc, fun h0 => absurd h0 (by simp [hc])⟩
    · exact ⟨fun _ _ => by rw [hvm]; exact hstate, fun h0 => absurd h0 (by simp [hc])⟩

/-- A whole run: whatever the fragments, a run that completes has gone through `Reassembling` states. -/
theorem run_completed {as : List Arrival} (h : Reassembling vm₀ got vm reass)
    (ha : Arriving vm₀ (got ++ as.map Arrival.bi))
    (hu : ip4FullReassRun maxReassLen thread vm reass as = some u) (hc : u.completed = true) :
    ∃ vm', Completed vm₀ (got ++ as.map Arrival.bi) u vm' := by
  induction as generalizing got vm reass with
  | nil => cases hu
  | cons a as ih =>
    cases as with
    | nil => exact (receive_spec h ha hu).2 hc
    | cons b as =>
      rw [ip4FullReassRun] at hu
      · split at hu
        · cases hu
        · rename_i u₁ hu₁
          split at hu
          · rename_i hok
            have ha' : Arriving vm₀ ((got ++ [a.bi]) ++ (b :: as).map Arrival.bi) := by simpa using ha
            have h₁ := (receive_spec h ha'.of_append hu₁).1 hok.1 hok.2
            have := ih h₁ ha' hu
            simpa using this
          · cases hu
      · simp

/-! ### The octets of the datagram -/

/-- The octet at a position of a range, in the packet of its fragment. -/
theorem getElem?_rangeBytes {r : Range} {k : ℕ} (hgood : r.Good) (hk : r.rangeFirst + k ≤ r.rangeLast) :
    (rangeBytes vm r)[k]? = (payload vm r.bi)[r.rangeFirst + k - r.fragmentFirst]? := by
  have hlen := hgood.dataLen
  have hfirst := hgood.first
  simp only [iv] at hlen
  rw [rangeBytes, getElem?_take_of_lt (by omega), getElem?_drop, hgood.dataOffset]
  congr 1
  omega

/-- Ranges that follow each other have as many octets as there are between their ends, and each octet is one that its
    fragment has at that position. -/
theorem getElem?_body {ranges : List Range} {a e : ℕ} (hgood : ∀ r ∈ ranges, r.Good)
    (hfits : ∀ r ∈ ranges, Fits vm r) (htiles : Tiles a (ranges.map iv) e) :
    (body vm ranges).length = e - a ∧ ∀ k, a + k < e → ∃ r ∈ ranges, r.iv.Has (a + k) ∧
      (body vm ranges)[k]? = (payload vm r.bi)[a + k - r.fragmentFirst]? := by
  induction ranges generalizing a with
  | nil =>
    obtain rfl : a = e := htiles
    exact ⟨by simp [body], fun k hk => absurd hk (by omega)⟩
  | cons r rest ih =>
    obtain ⟨hstart, hrest⟩ := htiles
    have hr := hgood r mem_cons_self
    have hgood' : ∀ r ∈ rest, r.Good := fun r' hr' => hgood r' (mem_cons_of_mem r hr')
    have hlen : (rangeBytes vm r).length = r.rangeLast + 1 - a := by
      rw [length_rangeBytes (hfits r mem_cons_self), hr.dataLen, hstart]
      rfl
    have hne := hr.nonempty
    have hhi : r.iv.hi ≤ e := by
      have hle : ∀ x ∈ rest.map iv, x.lo ≤ x.hi := by
        rw [forall_mem_map]
        intro r' hr'
        have := (hgood' r' hr').nonempty
        simp only [iv]
        omega
      exact (hrest.measure_eq hle).1
    have hbody : body vm (r :: rest) = rangeBytes vm r ++ body vm rest := rfl
    obtain ⟨hblen, hb⟩ := ih hgood' (fun r' hr' => hfits r' (mem_cons_of_mem r hr')) hrest
    simp only [iv] at hstart hhi hblen hb
    refine ⟨by rw [hbody, length_append, hlen, hblen]; omega, fun k hk => ?_⟩
    rw [hbody]
    rcases lt_or_ge k (r.rangeLast + 1 - a) with hlt | hge
    · -- the octet is in the first range
      refine ⟨r, mem_cons_self, ⟨by simp only [iv]; omega, by simp only [iv]; omega⟩, ?_⟩
      rw [getElem?_append_left (by omega), getElem?_rangeBytes hr (by omega), hstart]
    · obtain ⟨r', hr', hhas, hget⟩ := hb (k - (r.rangeLast + 1 - a)) (by omega)
      have hpos : r.rangeLast + 1 + (k - (r.rangeLast + 1 - a)) = a + k := by omega
      rw [hpos] at hhas hget
      refine ⟨r', mem_cons_of_mem r hr', hhas, ?_⟩
      rw [getElem?_append_right (by omega), hlen, hget]

/-- The end of the datagram is that of a fragment without `more_fragments`. -/
theorem lastOctet_eq (vm₀ : Vm) (got : List ℕ) : lastOctet vm₀ got = noOctet ∨
    ∃ bi ∈ got, ip4GetFragmentMore (vm₀.buffer bi) = false ∧
      lastOctet vm₀ got = fragmentLast (vm₀.buffer bi) :=
  foldl_announced (fun bi => ip4GetFragmentMore (vm₀.buffer bi))
  (fun bi => fragmentLast (vm₀.buffer bi)) noOctet got

theorem payload_congr {vm vm' : Vm} {l : List ℕ} (hp : Packet vm bi l) (hp' : Packet vm' bi l)
    (h : ∀ i ∈ l, vm'.buffer i = vm.buffer i) : payload vm' bi = payload vm bi := by
  rw [payload, payload, hp.chain_eq, hp'.chain_eq, contents_congr h, h bi hp.head_mem]

/-! ### Completed contexts -/

/-- The fragment's packet has the octet `byte` at the position `p` of the datagram. -/
def CarriesByte (vm₀ : Vm) (bi p : ℕ) (byte : Byte) : Prop :=
  Carries vm₀ bi p ∧ (payload vm₀ bi)[p - fragmentFirst (vm₀.buffer bi)]? = some byte

/-- A completed reassembly of the fragments `got` has invented nothing. -/
structure Genuine (vm₀ : Vm) (got : List ℕ) (u : Updated) : Prop where
  /-- the ranges kept are disjoint -/
  disjoint : Ordered (u.reass.ranges.map iv)
  /-- and follow each other from offset 0 to the end of a last fragment -/
  tiles : ∃ bi ∈ got, ip4GetFragmentMore (vm₀.buffer bi) = false ∧
    Tiles 0 (u.reass.ranges.map iv) (fragmentLast (vm₀.buffer bi) + 1)
  /-- the packet emitted has a header, and behind it what fragments have carried -/
  octets : ∃ first ∈ got, u.bi = some first ∧ ∃ out, Packet u.vm first out ∧
    ∀ p byte, ((u.vm.contents out).drop (ip4HeaderBytes (vm₀.buffer first)))[p]? = some byte →
      ∃ bi ∈ got, CarriesByte vm₀ bi p byte

/-- The buffers of a packet are nobody else's, and its first one holds the header. -/
@[mk_iff]
structure Sound (vm₀ : Vm) (bi : ℕ) : Prop where
  header : HeaderIn (vm₀.buffer bi)
  owned : ∀ i ∈ vm₀.chain bi, Owned vm₀.dataSize (vm₀.buffer i)

instance (vm₀ : Vm) (bi : ℕ) : Decidable (Sound vm₀ bi) := decidable_of_iff' _ (sound_iff vm₀ bi)

/-- No fragment goes beyond the end that the latest fragment without `more_fragments` has announced. -/
def EndsLast (vm₀ : Vm) (got : List ℕ) : Prop :=
  ∀ bi ∈ got, fragmentLast (vm₀.buffer bi) ≤ lastOctet vm₀ got
deriving Decidable

/-- The ranges of a completed context leave no gap. -/
theorem Completed.tiles (h : Completed vm₀ got u vm) (ha : Arriving vm₀ got) (hend : EndsLast vm₀ got) :
    ∃ bi ∈ got, ip4GetFragmentMore (vm₀.buffer bi) = false ∧
      lastOctet vm₀ got = fragmentLast (vm₀.buffer bi) ∧
      Tiles 0 (u.reass.ranges.map iv) (fragmentLast (vm₀.buffer bi) + 1) := by
  have hoct := h.octet
  rw [h.state.last] at hoct
  obtain ⟨bi, hbi, hmore, heq⟩ := (lastOctet_eq vm₀ got).resolve_left hoct
  obtain ⟨-, hlt, -, -⟩ := (ha.accepted bi hbi).spec (ha.header bi hbi)
  have hcount : held u.reass.ranges = fragmentLast (vm₀.buffer bi) + 1 := by
    have := h.count
    rw [h.state.dataLen, h.state.last, heq] at this
    omega
  refine ⟨bi, hbi, hmore, heq, h.state.ordered.tiles (Nat.zero_le _) (fun _ _ => Nat.zero_le _) ?_ ?_⟩
  · rw [forall_mem_map]
    intro r hr
    obtain ⟨hmem, -, hlast⟩ := h.state.origin r hr
    have hle := hend r.bi hmem
    have hgood := h.state.good r hr
    simp only [iv]
    rw [hgood.last, hlast]
    omega
  · rw [← held, hcount, Nat.sub_zero]

theorem dataOffset_of_tiles {first : Range} {rest : List Range} {e : ℕ} (hgood : first.Good)
    (htiles : Tiles 0 ((first :: rest).map iv) e) : first.dataOffset = 0 := by
  have hzero : first.rangeFirst = 0 := htiles.1
  rw [hgood.dataOffset, hzero, Nat.zero_sub]

/-- Where the ranges leave no gap and their packets hold them, finalizing emits the datagram. -/
theorem Reassembling.finalize (h : Reassembling vm₀ got vm reass) (ha : Arriving vm₀ got)
    (hs : ∀ bi ∈ got, Sound vm₀ bi) (hsize : 0 < vm₀.dataSize ∧ vm₀.dataSize + 128 < 2 ^ 16) {e : ℕ}
    (he : e < 2 ^ 16) {first : Range} {rest : List Range} (hr : reass.ranges = first :: rest)
    (htiles : Tiles 0 (reass.ranges.map iv) e) (hfits : ∀ r ∈ reass.ranges, Fits vm r) :
    ∃ vm' out, ip4FullReassFinalize vm reass.ranges = some (.ok, vm') ∧ Finalized vm first rest out vm' := by
  have hstored := h.stored ha
  have hmem : first ∈ reass.ranges := by rw [hr]; exact mem_cons_self
  have hin := (h.origin first hmem).1
  have hhdr : HeaderIn (vm.buffer first.bi) := by
    rw [h.kept first hmem first.bi (ha.packet _ hin).head_mem]
    exact (hs first.bi hin).header
  have hown : ∀ i ∈ buffersOf vm reass.ranges, Owned vm.dataSize (vm.buffer i) := by
    intro i hi
    obtain ⟨r, hr', hir⟩ := mem_flatMap.mp hi
    rw [(h.packet ha hr').chain_eq] at hir
    rw [h.kept r hr' i hir, h.same.dataSize]
    exact (hs r.bi (h.origin r hr').1).owned i hir
  have hbody := (getElem?_body hstored.good hfits htiles).1
  rw [hr] at hstored hfits hown hbody htiles ⊢
  exact ip4FullReassFinalize_spec hstored hfits (dataOffset_of_tiles (h.good first hmem) htiles) hhdr hown
    (by rw [h.same.dataSize]; exact hsize) (by rw [hbody]; omega)

section
variable (h : Completed vm₀ got u vm) (ha : Arriving vm₀ got) (hs : ∀ bi ∈ got, Sound vm₀ bi)
    (hsize : 0 < vm₀.dataSize ∧ vm₀.dataSize + 128 < 2 ^ 16)
include h ha hs hsize

/-- A completed context whose ranges leave no gap has emitted what the fragments hold. -/
theorem Completed.finalized {e : ℕ} (he : e < 2 ^ 16) (hpos : 0 < e)
    (htiles : Tiles 0 (u.reass.ranges.map iv) e) :
    ∃ first rest out, u.reass.ranges = first :: rest ∧ (∀ r ∈ first :: rest, Fits vm r) ∧
      Finalized vm first rest out u.vm := by
  cases hr : u.reass.ranges with
  | nil =>
    rw [hr] at htiles
    obtain rfl : 0 = e := htiles
    cases hpos
  | cons first rest =>
    have hfin := h.finalize
    have hstored := h.state.stored ha
    have hfits : ∀ r ∈ first :: rest, Fits vm r := by
      rw [hr] at hstored hfin htiles
      exact fits_of_finalize hstored (dataOffset_of_tiles (hstored.good first mem_cons_self) htiles) hfin
    obtain ⟨vm', out, hok, hF⟩ :=
      h.state.finalize ha hs hsize he hr htiles (by rw [hr]; exact hfits)
    obtain rfl : vm' = u.vm := by
      rw [hfin] at hok
      cases hok
      rfl
    exact ⟨first, rest, out, rfl, hfits, hF⟩

theorem Completed.genuine (hend : EndsLast vm₀ got) : Genuine vm₀ got u := by
  obtain ⟨last, hlast, hmore, -, htiles⟩ := h.tiles ha hend
  obtain ⟨-, hlt, -, -⟩ := (ha.accepted last hlast).spec (ha.header last hlast)
  obtain ⟨first, rest, out, hr, hfits, hF⟩ :=
    h.finalized ha hs hsize (show fragmentLast (vm₀.buffer last) + 1 < 2 ^ 16 by omega) (Nat.succ_pos _) htiles
  have hmem : first ∈ u.reass.ranges := by rw [hr]; exact mem_cons_self
  obtain ⟨hin, -, -⟩ := h.state.origin first hmem
  have hkept : ∀ r ∈ u.reass.ranges, payload vm r.bi = payload vm₀ r.bi := fun r hr' =>
    payload_congr (ha.packet r.bi (h.state.origin r hr').1) (h.state.packet ha hr') (h.state.kept r hr')
  have hhdr : vm.buffer first.bi = vm₀.buffer first.bi :=
    h.state.kept first hmem first.bi (ha.packet _ hin).head_mem
  refine ⟨h.state.ordered, ⟨last, hlast, hmore, htiles⟩, first.bi, hin, ?_, out, hF.packet, ?_⟩
  · rw [h.first, hr]
    rfl
  · intro p byte hp
    have hgood : ∀ r ∈ first :: rest, r.Good := fun r hr' => h.state.good r (by rw [hr]; exact hr')
    rw [hr] at htiles
    obtain ⟨hlen, hbody⟩ := getElem?_body hgood hfits htiles
    have hhl : ((vm.contents (vm.chain first.bi)).take (ip4HeaderBytes (vm.buffer first.bi))).length =
        ip4HeaderBytes (vm.buffer first.bi) := by
      have := hfits first mem_cons_self
      rw [Fits] at this
      rw [length_take]
      omega
    have h20 := (hs first.bi hin).header.min
    rw [hF.contents, ← hhdr, drop_left' (by rw [length_emittedHeader (by rw [hhl, hhdr]; exact h20), hhl])] at hp
    have hpl : p < fragmentLast (vm₀.buffer last) + 1 := by
      have := (List.getElem?_eq_some_iff.mp hp).1
      omega
    obtain ⟨r, hr', hhas, hget⟩ := hbody p (by omega)
    have hr'' : r ∈ u.reass.ranges := by rw [hr]; exact hr'
    obtain ⟨hrin, hfirst, hlst⟩ := h.state.origin r hr''
    have hrg := hgood r hr'
    rw [hget, zero_add, hkept r hr'', hfirst] at hp
    simp only [Iv.Has, iv, zero_add] at hhas
    have h1 := hrg.first
    have h2 := hrg.last
    exact ⟨r.bi, hrin, ⟨by omega, by omega⟩, hp⟩

end

/-- A context made by `ip4_full_reass_find_or_create`. -/
theorem Reassembling.new (vm₀ : Vm) (now thread : ℕ) : Reassembling vm₀ [] vm₀ (ip4FullReassInit now thread) :=
  Reassembling.init vm₀ rfl rfl rfl rfl

/-- The header of a fragment with `n` octets of payload, some of whose fields are fixed. -/
def fragmentHeader (units : ℕ) (more : Bool) (n : ℕ) (options : Bytes) : Bytes :=
  [BitVec.ofNat 8 (0x45 + options.length / 4), 0] ++ toBe 2 (20 + options.length + n) ++ [0, 1] ++
    toBe 2 (units + if more then 0x2000 else 0) ++ [64, 17, 0, 0, 10, 0, 0, 1, 10, 0, 0, 2] ++ options

/-- A fragment in one buffer. -/
def fragmentBuffer (units : ℕ) (more : Bool) (payload : Bytes) : VlibBuffer :=
  bufferOf (fragmentHeader units more payload.length [] ++ payload)

/-- Whatever fragments come for a context, and however they overlap: if none of them goes beyond the end announced
    last, a datagram that is completed was sent. -/
theorem ip4FullReass_genuine (as : List Arrival) (ha : Arriving vm₀ (as.map Arrival.bi))
    (hs : ∀ a ∈ as, Sound vm₀ a.bi) (hsize : 0 < vm₀.dataSize ∧ vm₀.dataSize + 128 < 2 ^ 16)
    (hend : EndsLast vm₀ (as.map Arrival.bi))
    (hu : ip4FullReassRun maxReassLen thread vm₀ (ip4FullReassInit now thread) as = some u)
    (hc : u.completed = true) : Genuine vm₀ (as.map Arrival.bi) u := by
  obtain ⟨vm, hcomp⟩ := run_completed (Reassembling.new vm₀ now thread) (by simpa using ha) hu hc
  exact hcomp.genuine ha (by simpa using hs) hsize hend

theorem ip4FullReass_genuine_two :
    let vm₀ := twoBuffers (fragmentBuffer 1 false (replicate 5 7)) (fragmentBuffer 0 true (replicate 8 9))
    ∃ u, ip4FullReassRun 3 0 vm₀ (ip4FullReassInit 0 0) [⟨0, none, 0⟩, ⟨1, none, 1⟩] = some u ∧
      u.completed = true ∧
      Genuine vm₀ [0, 1] u := by
  intro vm₀
  have hrun : (ip4FullReassRun 3 0 vm₀ (ip4FullReassInit 0 0) [⟨0, none, 0⟩, ⟨1, none, 1⟩]).map
    Updated.completed =
      some true := by decide +kernel
  obtain ⟨u, hu, hc⟩ := Option.map_eq_some_iff.mp hrun
  exact ⟨u, hu, hc, ip4FullReass_genuine [⟨0, none, 0⟩, ⟨1, none, 1⟩] (by decide +kernel) (by decide +kernel)
    (by decide +kernel) (by decide +kernel) hu hc⟩

/-- The octets 8 to 23, and then a last fragment with the octets 8 to 15: 16 octets are held, and the datagram is
    complete without its first 8. -/
theorem ip4FullReass_not_genuine :
    let vm₀ := twoBuffers (fragmentBuffer 1 true (replicate 16 7)) (fragmentBuffer 1 false (replicate 8 9))
    Arriving vm₀ [0, 1] ∧ (∀ bi ∈ [0, 1], Sound vm₀ bi) ∧
      ∃ u, ip4FullReassRun 3 0 vm₀ (ip4FullReassInit 0 0) [⟨0, none, 0⟩, ⟨1, none, 1⟩] = some u ∧
        u.completed = true ∧ ¬ Genuine vm₀ [0, 1] u := by
  intro vm₀
  have hrun : (ip4FullReassRun 3 0 vm₀ (ip4FullReassInit 0 0) [⟨0, none, 0⟩, ⟨1, none, 1⟩]).map
      (fun u => (u.completed, u.reass.ranges)) = some (true, [⟨0, 8, 23, 8, 23⟩]) := by decide +kernel
  obtain ⟨u, hu, heq⟩ := Option.map_eq_some_iff.mp hrun
  obtain ⟨hc, hr⟩ := Prod.mk.inj heq
  refine ⟨by decide +kernel, by decide +kernel, u, hu, hc, fun hg => ?_⟩
  obtain ⟨bi, -, -, htiles⟩ := hg.tiles
  rw [hr] at htiles
  exact absurd htiles.1 (by decide)

end Vpp.Ip
