import Vpp.Ikev2.Chain
import Vpp.Ikev2.Parse

/-! Reading back a traffic selector payload that `ikev2_payload_add_ts` wrote.

    Every field comes back as written except the ports: the writer converts them to network byte order,
    the reader copies them as they are, so on a little-endian host a port comes back with its two bytes
    swapped (`parseTsEntries_data`). -/

namespace Vpp.Ikev2
open Vpp.Schemes List
open BitVec (ofNat)

/-- A port with its two bytes exchanged. -/
def swapBytes (port : BitVec 16) : BitVec 16 := ofNat 16 (ofLe (toBe 2 port.toNat))

/-- The selector as the reader sees it. -/
def Ts.swapPorts (ts : Ts) : Ts :=
  { ts with startPort := swapBytes ts.startPort, endPort := swapBytes ts.endPort }

/-- A selector of one of the two supported types, with addresses of the family the type names. -/
def Ts.WellTyped (ts : Ts) : Prop :=
  (ts.tsType = tsIpv4AddrRange ∧ ∃ a b, ts.startAddr = .ip4 a ∧ ts.endAddr = .ip4 b) ∨
    (ts.tsType = tsIpv6AddrRange ∧ ∃ a b, ts.startAddr = .ip6 a ∧ ts.endAddr = .ip6 b)

/-- The fixed part of an entry. -/
def tsEntryHdr (ts : Ts) (len : ℕ) : Bytes :=
  [ts.tsType, ts.protocolId] ++ (toBe 2 len ++ (toBe 2 ts.startPort.toNat ++ toBe 2 ts.endPort.toNat))

/-- The address pair of an entry in numbers, uniformly in the family. -/
theorem Ts.WellTyped.addrs {ts : Ts} (h : ts.WellTyped) :
    (ts.tsType = tsIpv4AddrRange ∨ ts.tsType = tsIpv6AddrRange) ∧
    ∃ a b size, a < 256 ^ size ∧ b < 256 ^ size ∧ (if ts.tsType = tsIpv4AddrRange then 4 else 16) = size ∧
      ts.startAddr.bytes = toBe size a ∧ ts.endAddr.bytes = toBe size b ∧
      (if ts.tsType = tsIpv4AddrRange then fun n => IpAddress.ip4 (ofNat 32 n)
        else fun n => .ip6 (ofNat 128 n)) a = ts.startAddr ∧
      (if ts.tsType = tsIpv4AddrRange then fun n => IpAddress.ip4 (ofNat 32 n)
        else fun n => .ip6 (ofNat 128 n)) b = ts.endAddr := by
  rcases h with ⟨ht, a, b, ha, hb⟩ | ⟨ht, a, b, ha, hb⟩
  · exact ⟨.inl ht, a.toNat, b.toNat, 4, a.isLt, b.isLt, by rw [ht]; rfl, by rw [ha]; rfl,
      by rw [hb]; rfl, by simp [ht, ha], by simp [ht, hb]⟩
  · exact ⟨.inr ht, a.toNat, b.toNat, 16, a.isLt, b.isLt, by rw [ht]; rfl, by rw [ha]; rfl,
      by rw [hb]; rfl, by simp [ht, ha], by simp [ht, hb]⟩

theorem tsEntry_eq {ts : Ts} {a b size : ℕ} (hsize : (if ts.tsType = tsIpv4AddrRange then 4 else 16) = size)
    (ha : ts.startAddr.bytes = toBe size a) (hb : ts.endAddr.bytes = toBe size b) :
    tsEntry ts = tsEntryHdr ts (8 + 2 * size) ++ (toBe size a ++ toBe size b) := by
  have hrep : replicate (2 * size) (0 : Byte) =
      replicate size 0 ++ (replicate size 0 ++ []) := by
    rw [Nat.two_mul, replicate_add, append_nil]
  have hhdr : [ts.tsType, ts.protocolId] ++ toBe 2 (8 + 2 * size) ++ toBe 2 ts.startPort.toNat ++
      toBe 2 ts.endPort.toNat = tsEntryHdr ts (8 + 2 * size) := by simp [tsEntryHdr]
  simp only [tsEntry, hsize, ha, hb, hhdr, hrep]
  rw [writeAt_middle _ _ _ _ (by simp [tsEntryHdr]) (by simp), ← append_assoc,
    writeAt_middle _ _ _ _ (by simp [tsEntryHdr]; omega) (by simp)]
  simp

theorem parseAddrPair_eq {mem rest : Bytes} {off size a b : ℕ} (addr : ℕ → IpAddress)
    (hmem : mem.drop off = toBe size a ++ (toBe size b ++ rest)) (hoff : off ≤ mem.length)
    (ha : a < 256 ^ size) (hb : b < 256 ^ size) :
    parseAddrPair mem off size addr = .ok (addr a, addr b) := by
  have hpair : slice mem off (2 * size) = .ok (toBe size a ++ toBe size b) :=
    slice_of_drop (by rw [hmem, append_assoc]) (by simp; omega) hoff
  have hfst : fieldBe (toBe size a ++ toBe size b) 0 size = a :=
    @fieldBe_toBe [] (toBe size b) 0 size a rfl ha
  have hsnd : fieldBe (toBe size a ++ toBe size b) size size = b := by
    have := @fieldBe_toBe _ [] _ _ b (length_toBe size a) hb
    rwa [append_nil] at this
  rw [parseAddrPair, hpair, bind_ok, hfst, hsnd]; rfl

/-- The entries are read back in order, with the bytes of their ports swapped. -/
theorem parseTsEntries_data {mem : Bytes} {rlen : ℕ} (hml : mem.length = 8 + rlen) :
    ∀ (tss : List Ts) (p : ℕ), (∀ ts ∈ tss, ts.WellTyped) → mem.drop (8 + p) = tss.flatMap tsEntry →
      p + (tss.flatMap tsEntry).length = rlen →
      parseTsEntries mem rlen tss.length p = .ok (some (tss.map Ts.swapPorts))
  | [], _, _, _, _ => rfl
  | ts :: tss, p, hty, hmem, hrlen => by
    obtain ⟨htype, a, b, size, ha, hb, hsize, hab, hbb, hsa, hea⟩ := (hty ts mem_cons_self).addrs
    rw [flatMap_cons, tsEntry_eq hsize hab hbb, append_assoc, append_assoc] at hmem
    rw [flatMap_cons, tsEntry_eq hsize hab hbb] at hrlen
    have hsz : 0 < size := by rw [← hsize]; split <;> decide
    have hhl : (tsEntryHdr ts (8 + 2 * size)).length = 8 := by simp [tsEntryHdr]
    simp only [length_append, hhl, length_toBe] at hrlen
    have hpe := slice_of_drop hmem hhl (by omega)
    have hafter := drop_add_of_drop hmem hhl
    have hpair := fun addr => parseAddrPair_eq addr hafter (by omega) ha hb
    have hnext := drop_add_of_drop (drop_add_of_drop hafter (length_toBe _ _)) (length_toBe _ _)
    have ih := parseTsEntries_data hml tss (p + 8 + 2 * size)
      (fun t ht => hty t (mem_cons_of_mem _ ht)) (by rw [← hnext]; congr 1; omega) (by omega)
    have hunsupported : ¬ (ts.tsType ≠ tsIpv4AddrRange ∧ ts.tsType ≠ tsIpv6AddrRange) := by
      rcases htype with h | h <;> simp [h]
    have hf0 : field8 (tsEntryHdr ts (8 + 2 * size)) 0 = ts.tsType := rfl
    rw [length_cons, parseTsEntries, if_neg (by omega), hpe]
    simp only [bind_ok, hf0, hsize]
    rw [if_neg hunsupported, hpair, bind_ok, ih, hsa, hea]
    rfl

/-- The payload that `ikev2_payload_add_ts` adds to the chain. -/
def tsPayload (c : PayloadChain) (tss : List Ts) (type : Byte) : Bytes :=
  (ikev2PayloadAddTs c tss type).data.drop c.data.length

theorem tsPayload_eq {c : PayloadChain} (hc : c.WF) (tss : List Ts) (type : Byte) :
    tsPayload c tss type =
      [0, 0] ++ (toBe 2 (8 + (tss.flatMap tsEntry).length) ++
        ([ofNat 8 tss.length, 0, 0, 0] ++ tss.flatMap tsEntry)) := by
  obtain ⟨pre, hpre, hhdr⟩ := addHdr_holds hc type 4
  have hall := (hhdr.setHdr 0 [ofNat 8 tss.length] (by simp)).addData (tss.flatMap tsEntry)
    (by rw [length_writeAt (by simp)]; decide)
  have hlen : 4 + ([ofNat 8 tss.length, 0, 0, 0] ++ tss.flatMap tsEntry).length =
      8 + (tss.flatMap tsEntry).length := by simp; omega
  rw [tsPayload, ← hpre, ← hlen]
  exact hall.drop_data

/-- What comes back of a traffic selector payload. -/
theorem ikev2ParseTsPayload_addTs {c : PayloadChain} (hc : c.WF) {tss : List Ts} (type : Byte)
    (hcount : tss.length ≤ 255) (hty : ∀ ts ∈ tss, ts.WellTyped) :
    ikev2ParseTsPayload (tsPayload c tss type) (tsPayload c tss type).length =
      .ok (tss.map Ts.swapPorts) := by
  rw [tsPayload_eq hc]
  generalize hmem : [0, 0] ++ (toBe 2 (8 + (tss.flatMap tsEntry).length) ++
    ([ofNat 8 tss.length, 0, 0, 0] ++ tss.flatMap tsEntry)) = mem
  have hlen : mem.length = 8 + (tss.flatMap tsEntry).length := by
    rw [← hmem]; simp only [length_append, length_toBe, length_cons, length_nil]; omega
  have hhdr : mem.drop 0 = ([0, 0] ++ (toBe 2 (8 + (tss.flatMap tsEntry).length) ++
      [ofNat 8 tss.length, 0, 0, 0])) ++ tss.flatMap tsEntry := by
    rw [drop_zero, ← hmem]; simp only [append_assoc]
  have hread := slice_of_drop hhdr (n := 8) (by simp) (Nat.zero_le _)
  have hn : (field8 ([0, 0] ++ (toBe 2 (8 + (tss.flatMap tsEntry).length) ++
      [ofNat 8 tss.length, 0, 0, 0])) 4).toNat = tss.length := by
    show (ofNat 8 tss.length).toNat = _
    rw [BitVec.toNat_ofNat]; omega
  have hbody : mem.drop 8 = tss.flatMap tsEntry := drop_add_of_drop (p := 0) (k := 8) hhdr (by simp)
  have hentries := parseTsEntries_data hlen tss 0 hty hbody (by omega)
  rw [ikev2ParseTsPayload, if_neg (by omega), hread, bind_ok, hn, hlen, Nat.add_sub_cancel_left,
    hentries]
  rfl

/-- A port whose two bytes are equal. -/
def SymmetricPort (port : BitVec 16) : Prop := port.toNat / 256 = port.toNat % 256

theorem ofLe_toBe_two (n : ℕ) : ofLe (toBe 2 n) = n % 256 * 256 + n / 256 % 256 := by
  simp [ofLe, toBe, ofBe]

theorem swapBytes_eq_self_iff (port : BitVec 16) : swapBytes port = port ↔ SymmetricPort port := by
  have hhi : port.toNat / 256 < 256 := by omega
  rw [swapBytes, ofLe_toBe_two, ← BitVec.toNat_inj, BitVec.toNat_ofNat, SymmetricPort,
    Nat.mod_eq_of_lt hhi, Nat.mod_eq_of_lt (show _ < 2 ^ 16 by omega)]
  omega

theorem swapPorts_eq_self_iff (ts : Ts) :
    ts.swapPorts = ts ↔ SymmetricPort ts.startPort ∧ SymmetricPort ts.endPort := by
  rw [← swapBytes_eq_self_iff, ← swapBytes_eq_self_iff]
  obtain ⟨t, p, sp, ep, sa, ea⟩ := ts
  simp [Ts.swapPorts]

theorem ikev2TsCmp_iff (ts1 ts2 : Ts) : ikev2TsCmp ts1 ts2 = true ↔ ts1 = ts2 := by
  obtain ⟨t, p, sp, ep, sa, ea⟩ := ts1
  obtain ⟨t', p', sp', ep', sa', ea'⟩ := ts2
  simp [ikev2TsCmp, and_assoc]

/-- The round trip as it is meant: the selectors come back, and each compares equal to the one that
    was written. -/
def TsRoundTrips (c : PayloadChain) (tss : List Ts) (type : Byte) : Prop :=
  ∃ r, ikev2ParseTsPayload (tsPayload c tss type) (tsPayload c tss type).length = .ok r ∧ r = tss ∧
    List.Forall₂ (fun ts ts' => ikev2TsCmp ts ts' = true) tss r

/-- The selectors come back exactly when every port reads the same in both byte orders. -/
theorem tsRoundTrips_iff {c : PayloadChain} (hc : c.WF) {tss : List Ts} (type : Byte)
    (hcount : tss.length ≤ 255) (hty : ∀ ts ∈ tss, ts.WellTyped) :
    TsRoundTrips c tss type ↔
      ∀ ts ∈ tss, SymmetricPort ts.startPort ∧ SymmetricPort ts.endPort := by
  have hparse := ikev2ParseTsPayload_addTs hc type hcount hty
  have hmap : tss.map Ts.swapPorts = tss ↔
      ∀ ts ∈ tss, SymmetricPort ts.startPort ∧ SymmetricPort ts.endPort := by
    simp only [← swapPorts_eq_self_iff]
    have hid : tss.map Ts.swapPorts = tss.map id ↔ _ := map_inj_left
    rwa [map_id] at hid
  rw [← hmap]
  constructor
  · rintro ⟨r, hr, rfl, -⟩
    rw [hparse] at hr
    exact Except.ok.inj hr
  · intro heq
    refine ⟨tss, by rw [hparse, heq], rfl, ?_⟩
    exact forall₂_same.mpr fun ts _ => (ikev2TsCmp_iff ts ts).mpr rfl

/-- The IPv4 selector 10.0.0.0 - 10.0.0.255 for UDP. -/
def udpSelector (startPort endPort : BitVec 16) : Ts :=
  ⟨tsIpv4AddrRange, 17, startPort, endPort, .ip4 0x0a000000, .ip4 0x0a0000ff⟩

theorem tsRoundTrips_all_ports : TsRoundTrips {} [udpSelector 0 65535] payloadTsi :=
  (tsRoundTrips_iff (c := {}) ⟨by decide, by decide⟩ payloadTsi (by decide)
    (by rintro ts hts; rcases mem_singleton.mp hts with rfl; exact .inl ⟨rfl, _, _, rfl, rfl⟩)).mpr
    (by rintro ts hts; rcases mem_singleton.mp hts with rfl; exact ⟨rfl, rfl⟩)

/-- Port 500 comes back as 62465. -/
theorem tsRoundTrips_fails_port_500 : ¬ TsRoundTrips {} [udpSelector 500 500] payloadTsi := by
  rintro ⟨r, hr, rfl, -⟩
  revert hr
  decide +kernel

end Vpp.Ikev2
