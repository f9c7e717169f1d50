import Vpp.Ipsec.AntiReplay.Window

/-! The anti-replay check and advance, read on full sequence numbers.

    A packet stands for the number `hi * 2 ^ 32 + seq` (`Packet.sn`), the SA for the highest one it has
    accepted (`IpsecSa.top`). In these terms the advance has two outcomes, above the top
    (`advance_above`) and below it (`advance_below`), and the check a short list of cases in which no
    32-bit wrap-around is left (`check_cases_esn`). -/

namespace Vpp.Ipsec
open Vpp.Vppinfra

/-- A packet between its two anti-replay steps: `pd->seq_hi` and `pd->seq`. -/
structure Packet where
  hiSeq : BitVec 32
  seq : BitVec 32
  deriving DecidableEq

def Packet.sn (p : Packet) : ℕ := fullSn p.hiSeq p.seq

/-- The full number the SA has reached. -/
def IpsecSa.top (sa : IpsecSa) : ℕ := fullSn sa.seqHi sa.seq

/-! ### The advance -/

variable {sa : IpsecSa}

section
variable (bmi2 : Bool) {p : Packet} (hesn : sa.useEsn = false → p.hiSeq = sa.seqHi)
include hesn

/-- A packet above the top that has not skipped a high half moves the window up to itself. -/
theorem advance_above (hhi : p.hiSeq.toNat ≤ sa.seqHi.toNat + 1) (habove : sa.top < p.sn) :
    (ipsecSaAntiReplayAdvance bmi2 sa p.seq p.hiSeq).1 =
      { sa with window := (ipsecSaAntiReplayWindowShift bmi2 sa (p.seq - sa.seq)).1,
                seq := p.seq, seqHi := p.hiSeq } := by
  simp only [IpsecSa.top, Packet.sn, fullSn] at habove
  rcases lt_or_ge sa.seqHi.toNat p.hiSeq.toNat with hlt | hge
  · -- the high half moves on by exactly one
    have hwrap : p.hiSeq - sa.seqHi = 1 := by bv_omega
    have hpos : p.seq + ~~~sa.seq + 1#32 = p.seq - sa.seq := by bv_omega
    have hon : sa.useEsn = true := by
      by_contra hoff
      rw [hesn (by simpa using hoff)] at hlt
      omega
    simp [ipsecSaAntiReplayAdvance, hon, hwrap, hpos]
  · have hhi' : p.hiSeq = sa.seqHi := by bv_omega
    have hgt : p.seq > sa.seq := by bv_omega
    simp [ipsecSaAntiReplayAdvance, hhi', hgt]

/-- A packet at or below the top, by less than a window, sets its mark. -/
theorem advance_below (hle : p.sn ≤ sa.top) (hnear : sa.top < p.sn + 2 ^ 31) :
    (ipsecSaAntiReplayAdvance bmi2 sa p.seq p.hiSeq).1 =
      { sa with window := sa.setMark p.seq (sa.seq - p.seq) } := by
  simp only [IpsecSa.top, Packet.sn, fullSn] at hle hnear
  rcases lt_or_ge p.hiSeq.toNat sa.seqHi.toNat with hlt | hge
  · -- the packet is from just before the low half wrapped around
    have hwrap : p.hiSeq - sa.seqHi = -1 := by bv_omega
    have hpos : ~~~p.seq + sa.seq + 1#32 = sa.seq - p.seq := by bv_omega
    have hon : sa.useEsn = true := by
      by_contra hoff
      rw [hesn (by simpa using hoff)] at hlt
      omega
    simp [ipsecSaAntiReplayAdvance, hon, hwrap, hpos]
  · have hhi' : p.hiSeq = sa.seqHi := by bv_omega
    have hgt : ¬ p.seq > sa.seq := by bv_omega
    simp [ipsecSaAntiReplayAdvance, hhi', hgt]

theorem advance_above_window (h : sa.window.WF) (hhi : p.hiSeq.toNat ≤ sa.seqHi.toNat + 1)
    (habove : sa.top < p.sn) :
    let sa' := (ipsecSaAntiReplayAdvance bmi2 sa p.seq p.hiSeq).1
    sa'.window.WF ∧ sa'.window.width = sa.window.width ∧ sa'.top = p.sn ∧
      sa'.window = (ipsecSaAntiReplayWindowShift bmi2 sa (p.seq - sa.seq)).1 ∧
      sa'.seq = sa.seq + (p.seq - sa.seq) := by
  rw [advance_above bmi2 hesn hhi habove]
  obtain ⟨hwf, hwidth⟩ := shift_shape bmi2 h (p.seq - sa.seq)
  exact ⟨hwf, hwidth, rfl, rfl, by bv_omega⟩

theorem advance_below_window (h : sa.window.WF) (hle : p.sn ≤ sa.top)
    (hdist : (sa.seq - p.seq).toNat = sa.top - p.sn) (hW : sa.top - p.sn < sa.window.width) :
    let sa' := (ipsecSaAntiReplayAdvance bmi2 sa p.seq p.hiSeq).1
    sa'.window.WF ∧ sa'.window.width = sa.window.width ∧ sa'.top = sa.top ∧
      ∀ d < sa.window.width, sa'.marked d = (decide (d = sa.top - p.sn) || sa.marked d) := by
  have hb := h.width_bounds
  rw [advance_below bmi2 hesn hle (by omega)]
  obtain ⟨hwf, hwidth⟩ := setMark_shape h p.seq (sa.seq - p.seq)
  refine ⟨hwf, hwidth, rfl, fun d hd => ?_⟩
  rw [← hdist]
  exact setMark_marked h (hdist ▸ hW) rfl hd

end

/-! ### The check -/

section
variable (h : sa.window.WF) (har : sa.useAntiReplay = true)
include h har

/-- The check without extended sequence numbers. -/
theorem check_cases_no_esn
    (hesn : sa.useEsn = false) (seq hiUsed : BitVec 32) (post : Bool) :
    let r := ipsecSaAntiReplayAndSnAdvance sa seq hiUsed post
    r.2 = 0 ∧
      (sa.seq.toNat < seq.toNat ∨ r.1 = true ∨
        seq.toNat ≤ sa.seq.toNat ∧ sa.seq.toNat < seq.toNat + sa.window.width ∧
          r.1 = ipsecSaAntiReplayCheck sa seq) := by
  intro r
  have hsize := h.size_toNat
  by_cases hgt : seq > sa.seq
  · simp [r, ipsecSaAntiReplayAndSnAdvance, har, hesn, hgt]; bv_omega
  · by_cases hleft : sa.seq ≥ seq + sa.window.size
    · simp [r, ipsecSaAntiReplayAndSnAdvance, har, hesn, hgt, hleft]
    · simp only [r, ipsecSaAntiReplayAndSnAdvance, har, hesn, hgt, hleft, Bool.not_true, Bool.not_false,
        Bool.false_eq_true, if_true, if_false]
      exact ⟨trivial, .inr (.inr ⟨by bv_omega, by bv_omega, trivial⟩)⟩

/-- The check with extended sequence numbers. Cases A and B of the source join once the distances
    are written without wrap-around: left of the window, inside it, above it, inside it across zero. -/
theorem check_cases_esn (hesn : sa.useEsn = true) (seq : BitVec 32) :
    let r := ipsecSaAntiReplayAndSnAdvance sa seq
    (seq.toNat + sa.window.width ≤ sa.seq.toNat ∧ ∀ hiUsed post, r hiUsed post =
        if post then (decide (hiUsed = sa.seqHi), sa.seqHi) else (false, sa.seqHi + 1)) ∨
      (seq.toNat ≤ sa.seq.toNat ∧ sa.seq.toNat < seq.toNat + sa.window.width ∧
        ∀ hiUsed post, r hiUsed post = (ipsecSaAntiReplayCheck sa seq, sa.seqHi)) ∨
      (sa.seq.toNat < seq.toNat ∧ seq.toNat + sa.window.width ≤ sa.seq.toNat + 2 ^ 32 ∧
        ∀ hiUsed post, r hiUsed post = (false, sa.seqHi)) ∨
      (sa.seq.toNat + 2 ^ 32 < seq.toNat + sa.window.width ∧
        ∀ hiUsed post, r hiUsed post = (ipsecSaAntiReplayCheck sa seq, sa.seqHi - 1)) := by
  intro r
  have hb := h.width_bounds
  have hsize := h.size_toNat
  generalize sa.window.width = W at hb hsize ⊢
  by_cases hA : sa.seq ≥ sa.window.size - 1 <;> by_cases hl : seq < sa.windowLowerBound <;>
    by_cases hs : seq ≤ sa.seq <;>
    simp only [r, ipsecSaAntiReplayAndSnAdvance, har, hesn, hA, hl, hs, Bool.not_true,
      Bool.false_eq_true, if_true, if_false] <;>
    simp only [IpsecSa.windowLowerBound] at hl
  · exact .inl ⟨by bv_omega, fun _ _ => trivial⟩
  · bv_omega
  · exact .inr (.inl ⟨by bv_omega, by bv_omega, fun _ _ => trivial⟩)
  · exact .inr (.inr (.inl ⟨by bv_omega, by bv_omega, fun _ _ => trivial⟩))
  · exact .inr (.inl ⟨by bv_omega, by bv_omega, fun _ _ => trivial⟩)
  · exact .inr (.inr (.inl ⟨by bv_omega, by bv_omega, fun _ _ => trivial⟩))
  · bv_omega
  · exact .inr (.inr (.inr ⟨by bv_omega, fun _ _ => trivial⟩))

/-- The pre-decrypt check asks for at most the high half after the current one. -/
theorem receive_hi_le {seq : BitVec 32}
    (hlow : ∀ d, sa.top < d → d < sa.window.width → sa.marked d = true)
    (hpass : (ipsecSaAntiReplayAndSnAdvance sa seq (~~~0) false).1 = false) :
    (ipsecSaAntiReplayAndSnAdvance sa seq (~~~0) false).2.toNat ≤ sa.seqHi.toNat + 1 := by
  have hb := h.width_bounds
  by_cases hesn : sa.useEsn = true
  · rcases check_cases_esn h har hesn seq with
      ⟨-, hr⟩ | ⟨-, -, hr⟩ | ⟨-, -, hr⟩ | ⟨hacross, hr⟩
    · rw [hr, if_neg (by decide)]; bv_omega
    · rw [hr]; simp
    · rw [hr]; simp
    · -- the high half before the current one: below zero there is none, and every mark is set
      rw [hr] at hpass ⊢
      have hd : (sa.seq - seq).toNat < sa.window.width := by bv_omega
      rw [check_eq_marked h hd] at hpass
      by_cases h0 : sa.seqHi = 0
      · have htop : sa.top = sa.seq.toNat := by simp [IpsecSa.top, fullSn, h0]
        have hd0 : sa.top < (sa.seq - seq).toNat := by bv_omega
        rw [hlow _ hd0 hd] at hpass
        contradiction
      · bv_omega
  · rw [(check_cases_no_esn h har (by simpa using hesn) seq (~~~0) false).1]
    exact Nat.zero_le _

/-- The post-decrypt check lets a packet at or below the top pass only inside the window, unmarked. -/
theorem postDecrypt_pass {p : Packet}
    (hesn : sa.useEsn = false → p.hiSeq = sa.seqHi)
    (hreach : sa.seqHi ≤ p.hiSeq ∨ sa.top < p.sn + sa.window.width) (hle : p.sn ≤ sa.top)
    (hpass : (ipsecSaAntiReplayAndSnAdvance sa p.seq p.hiSeq true).1 = false) :
    (sa.seq - p.seq).toNat = sa.top - p.sn ∧ sa.top - p.sn < sa.window.width ∧
      sa.marked (sa.top - p.sn) = false := by
  have hb := h.width_bounds
  suffices hgoal : (sa.seq - p.seq).toNat = sa.top - p.sn ∧ sa.top - p.sn < sa.window.width ∧
      ipsecSaAntiReplayCheck sa p.seq = false by
    obtain ⟨hdist, hlt, hcheck⟩ := hgoal
    refine ⟨hdist, hlt, ?_⟩
    rwa [check_eq_marked h (by rw [hdist]; exact hlt), hdist] at hcheck
  simp only [IpsecSa.top, Packet.sn, fullSn] at hreach hle ⊢
  by_cases hon : sa.useEsn = true
  · rcases check_cases_esn h har hon p.seq with
      ⟨hleft, hr⟩ | ⟨h1, h2, hr⟩ | ⟨h1, h2, hr⟩ | ⟨hacross, hr⟩ <;> rw [hr] at hpass
    · have hne : p.hiSeq ≠ sa.seqHi := by simpa using hpass
      bv_omega
    · exact ⟨by bv_omega, by bv_omega, hpass⟩
    · bv_omega
    · exact ⟨by bv_omega, by bv_omega, hpass⟩
  · have hoff : sa.useEsn = false := by simpa using hon
    rw [hesn hoff] at hle ⊢
    rcases (check_cases_no_esn h har hoff p.seq p.hiSeq true).2 with h1 | h1 | ⟨h1, h2, hr⟩
    · omega
    · rw [h1] at hpass; contradiction
    · exact ⟨by bv_omega, by omega, hr ▸ hpass⟩

end

end Vpp.Ipsec
