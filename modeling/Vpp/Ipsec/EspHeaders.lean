import Vpp.Vlib.Chain
import Vpp.Ip.Reass.Ip6

/-! Where ESP goes in an IPv6 packet in transport mode (`esp_get_ip6_hdr_len`).

    The hop-by-hop, routing and fragment headers stay in front of the ESP header. The function adds up
    their lengths in a `u8`, but it adds a header's length before it moves on to the next header, and the
    first one's before the loop as well: what it returns is the offset of the last header and the length
    of the first. Every length is read from the header, also that of a fragment header, which has a
    reserved byte there. -/

namespace Vpp.Ipsec
open Vpp.Schemes Vpp.Vlib Vpp.Ip List
open BitVec (ofNat)

def extHdrIsPreEsp (nexthdr : ℕ) : Bool := nexthdr ∈ [0, 43, ipProtocolIpv6Fragmentation]

section
variable (b : VlibBuffer)

/-- The loop of `esp_get_ip6_hdr_len`, in at most `fuel` rounds. -/
def espHdrLenLoop : ℕ → BitVec 8 → ℕ → Option (BitVec 8 × ℕ)
  | 0, _, _ => none
  | fuel + 1, len, p =>
    if extHdrIsPreEsp (b.current p).toNat then
      espHdrLenLoop fuel (len + ofNat 8 (ip6ExtHeaderLen b p)) (p + ip6ExtHeaderLen b p)
    else some (len, p)

/-- `esp_get_ip6_hdr_len` of the packet in a buffer: the length and `*ext_hdr`, as an offset. -/
def espGetIp6HdrLen (fuel : ℕ) : Option (BitVec 8 × Option ℕ) :=
  if extHdrIsPreEsp (b.current 6).toNat = false then some (40, none)
  else (espHdrLenLoop b fuel (40 + ofNat 8 (ip6ExtHeaderLen b 40)) 40).map fun r => (r.1, some r.2)

/-- The headers in front of ESP from `off` on, where a header of type `nh` is, and a header is as long as `len` says:
    their types and offsets, and the offset of the first header that is none of them. -/
inductive PreEsp (len : ℕ → ℕ → ℕ) : ℕ → ℕ → List (ℕ × ℕ) → ℕ → Prop
  | nil {nh off : ℕ} : extHdrIsPreEsp nh = false → PreEsp len nh off [] off
  | cons {nh off stop : ℕ} {rest : List (ℕ × ℕ)} : extHdrIsPreEsp nh = true →
      PreEsp len (b.current off).toNat (off + len nh off) rest stop →
      PreEsp len nh off ((nh, off) :: rest) stop

/-- The headers that the loop goes through, where the second byte of each gives its length. -/
def ReadAs (nh off : ℕ) (hs : List (ℕ × ℕ)) : Prop :=
  ∃ stop, PreEsp b (fun _ => ip6ExtHeaderLen b) nh off hs stop

end

section
variable {b : VlibBuffer}

theorem getLast?_cons_snd (x : ℕ × ℕ) (rest : List (ℕ × ℕ)) :
    (x :: rest).getLast?.map Prod.snd = some ((rest.getLast?.map Prod.snd).getD x.2) := by
  rw [getLast?_cons]
  cases rest.getLast? <;> rfl

/-- From a header on, the loop adds up to the offset of the last one. -/
theorem espHdrLenLoop_eq {rest : List (ℕ × ℕ)} {p fuel : ℕ} (len : BitVec 8)
    (h : ReadAs b (b.current p).toNat (p + ip6ExtHeaderLen b p) rest) (hfuel : rest.length < fuel) :
    ∃ q, (rest.getLast?.map Prod.snd).getD p = q ∧ p ≤ q ∧
      espHdrLenLoop b fuel len p = some (len + ofNat 8 (q - p), q) := by
  -- along the chain, with the header just read generalised
  induction rest generalizing p len fuel with
  | nil =>
    obtain ⟨n, rfl⟩ : ∃ n, fuel = n + 1 := ⟨fuel - 1, by simp at hfuel; omega⟩
    obtain ⟨stop, h⟩ := h
    cases h with
    | nil hpre => exact ⟨p, rfl, le_refl p, by simp [espHdrLenLoop, hpre]⟩
  | cons x rest ih =>
    obtain ⟨n, rfl⟩ : ∃ n, fuel = n + 1 := ⟨fuel - 1, by simp at hfuel; omega⟩
    obtain ⟨stop, h⟩ := h
    cases h with
    | cons hpre hrest =>
      obtain ⟨q, hq, hle, hloop⟩ :=
        ih (len + ofNat 8 (ip6ExtHeaderLen b p)) ⟨stop, hrest⟩ (by simpa using hfuel)
      refine ⟨q, ?_, by omega, ?_⟩
      · rw [getLast?_cons_snd, Option.getD_some, ← hq]
      · rw [espHdrLenLoop, if_pos hpre, hloop, BitVec.add_assoc, ← BitVec.ofNat_add]
        congr 4
        omega

/-- Where the loop ends, there is such a chain. -/
theorem readAs_of_loop {fuel p q : ℕ} {len r : BitVec 8} (h : espHdrLenLoop b fuel len p = some (r, q)) :
    ∃ rest, ReadAs b (b.current p).toNat (p + ip6ExtHeaderLen b p) rest ∧ rest.length < fuel ∧
      (rest.getLast?.map Prod.snd).getD p = q := by
  induction fuel generalizing len p with
  | zero => cases h
  | succ fuel ih =>
    rw [espHdrLenLoop] at h
    split at h
    · rename_i hpre
      obtain ⟨rest, ⟨stop, hrest⟩, hlen, hq⟩ := ih h
      refine ⟨_ :: rest, ⟨stop, .cons hpre hrest⟩, Nat.succ_lt_succ hlen, ?_⟩
      rw [getLast?_cons_snd, Option.getD_some, hq]
    · rename_i hpre
      cases h
      exact ⟨[], ⟨_, .nil (by simpa using hpre)⟩, fuel.succ_pos, rfl⟩

/-- The length and the last header are right just when there is no header, or the loop comes to the last one and adds
    up to the end of the chain, for which it takes the length of the first header in place of the last. -/
theorem espGetIp6HdrLen_exact_iff {hs : List (ℕ × ℕ)} {stop : ℕ}
    (h : PreEsp b (ip6ExtHeaderLenS b) (b.current 6).toNat 40 hs stop) :
    (∃ fuel len, espGetIp6HdrLen b fuel = some (len, hs.getLast?.map Prod.snd) ∧ len.toNat = stop) ↔
      ∀ q ∈ hs.getLast?.map Prod.snd, (q + ip6ExtHeaderLen b 40) % 256 = stop ∧
        ∃ read, ReadAs b (b.current 6).toNat 40 read ∧ read.getLast?.map Prod.snd = some q := by
  cases h with
  | nil hpre =>
    refine iff_of_true ⟨0, 40, ?_, rfl⟩ (by simp)
    simp [espGetIp6HdrLen, hpre]
  | @cons _ _ _ rest hpre hrest =>
    have hsum (q : ℕ) (hq : 40 ≤ q) : (40 + ofNat 8 (ip6ExtHeaderLen b 40) + ofNat 8 (q - 40)).toNat =
        (q + ip6ExtHeaderLen b 40) % 256 := by
      rw [BitVec.toNat_add, BitVec.toNat_add, BitVec.toNat_ofNat, BitVec.toNat_ofNat,
        show BitVec.toNat (40 : BitVec 8) = 40 from rfl]
      omega
    simp only [getLast?_cons_snd, Option.mem_some_iff, forall_eq', espGetIp6HdrLen, hpre, Bool.true_eq_false, if_false]
    generalize (rest.getLast?.map Prod.snd).getD 40 = last
    constructor
    · rintro ⟨fuel, len, hlen, hstop⟩
      obtain ⟨⟨_, q⟩, hloop, heq⟩ := Option.map_eq_some_iff.mp hlen
      cases heq
      obtain ⟨read, ⟨stop', hread⟩, hfuel, hq⟩ := readAs_of_loop hloop
      obtain ⟨_, rfl, hle, hloop'⟩ :=
        espHdrLenLoop_eq (40 + ofNat 8 (ip6ExtHeaderLen b 40)) ⟨stop', hread⟩ hfuel
      cases hloop.symm.trans hloop'
      refine ⟨(hsum _ hle).symm.trans hstop, _, ⟨stop', .cons hpre hread⟩, ?_⟩
      rw [getLast?_cons_snd, hq]
    · rintro ⟨hstop, read, ⟨stop', hread⟩, hlast⟩
      cases hread with
      | nil hpre' => exact absurd hpre (by simp [hpre'])
      | @cons _ _ _ read _ hread =>
        rw [getLast?_cons_snd, Option.some.injEq] at hlast
        obtain ⟨_, rfl, hle, hloop⟩ :=
          espHdrLenLoop_eq (40 + ofNat 8 (ip6ExtHeaderLen b 40)) ⟨stop', hread⟩ (Nat.lt_succ_self _)
        rw [hlast] at hle hloop
        exact ⟨_, _, by rw [hloop, Option.map_some], (hsum _ hle).trans hstop⟩

end

/-! ### Two packets -/

/-- An IPv6 header, extension headers from offset 40 on, and a TCP header. -/
def extPacket (nh : Byte) (ext : Bytes) : VlibBuffer :=
  bufferOf (replicate 6 0 ++ [nh] ++ replicate 33 0 ++ ext ++ replicate 20 0)

/-- A hop-by-hop header of 8 bytes and a fragment header, whose reserved byte is not read as it is the last one. -/
theorem espGetIp6HdrLen_fragment : ∃ fuel len,
    espGetIp6HdrLen (extPacket 0 [44, 0, 0, 0, 0, 0, 0, 0, 6, 1, 0, 0, 0, 0, 0, 0]) fuel = some (len, some 48) ∧
      len.toNat = 56 :=
  (@espGetIp6HdrLen_exact_iff _ [(0, 40), (44, 48)] _
    (.cons (by decide) (.cons (by decide) (.nil (by decide))))).mpr
    fun q hq => ⟨by cases hq; decide, _, ⟨_, .cons (by decide) (.cons (by decide) (.nil (by decide)))⟩, hq⟩

/-- A hop-by-hop header of 8 bytes and a routing header of 24: the TCP header starts at 72, not at 56. -/
theorem espGetIp6HdrLen_wrong : ∃ b : VlibBuffer,
    PreEsp b (ip6ExtHeaderLenS b) (b.current 6).toNat 40 [(0, 40), (43, 48)] 72 ∧
    espGetIp6HdrLen b 9 = some (56, some 48) :=
  ⟨extPacket 0 ([43, 0, 0, 0, 0, 0, 0, 0] ++ [6, 2] ++ replicate 22 0),
    .cons (by decide) (.cons (by decide) (.nil (by decide))), by decide⟩

end Vpp.Ipsec
