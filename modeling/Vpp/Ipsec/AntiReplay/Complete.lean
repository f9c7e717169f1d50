import Vpp.Ipsec.AntiReplay.ExactShift
import Vpp.Ipsec.AntiReplay.NoReplay

/-! Nothing is turned away that need not be.

    The marks of the window are those of the numbers that were accepted, and of zero and the places below it, and no
    others (`Schemes.Tracks`); a packet that is checked before and after its decryption with no other in between is
    therefore accepted exactly if its number is above the window, or inside it and new.

              top - W          top                   top - W + 2 ^ 32
        ---------]--------------]-----------------------------]-------->
         too old    if not yet             accepted              too old, next high half
                    accepted -/

namespace Vpp.Ipsec
open Vpp.Vppinfra Vpp.Schemes ReplayWindow List Option EspState IpsecSa Packet

/-! ### A packet by itself -/

/-- The two checks of a packet with no other packet in between: the high half with which it is accepted. -/
def espAlone (sa : IpsecSa) (seq : BitVec 32) : Option (BitVec 32) :=
  let pre := ipsecSaAntiReplayAndSnAdvance sa seq (~~~0) false
  if pre.1 then none
  else if (ipsecSaAntiReplayAndSnAdvance sa seq pre.2 true).1 then none
  else some pre.2

/-- What a window of `W` numbers up to `top` is to accept. -/
def ShouldAccept (W top : ℕ) (accepted : List ℕ) (n : ℤ) : Prop :=
  top < n ∨ top - n < W ∧ 0 < n ∧ ∀ m ∈ accepted, (m : ℤ) ≠ n
deriving Decidable

/-- A shift to `seq` does not ask `pow2_mask` for all 64 bits of a word in a build without BMI2. -/
def MaskFits (bmi2 : Bool) (sa : IpsecSa) (seq : BitVec 32) : Prop :=
  bmi2 = true ∨ sa.window.width = 64 ∨ ¬ ((seq - sa.seq).toNat = 64 ∧ (sa.seq.toNat + 1) % 64 = 0)
deriving Decidable

/-! ### Marks after a step -/

section
variable {sa sa' : IpsecSa} {bmi2 : Bool}

theorem seenAt_eq_marked {bm : List Uword} (h : (ReplayWindow.huge bm).WF) (t th : BitVec 32) (esn ar : Bool) {d : ℕ}
    (hd : d < 64 * bm.length) : marked ⟨t, th, .huge bm, esn, ar⟩ d = seenAt bm ((t.toNat : ℤ) - d) := by
  have hb := h.width_bounds
  obtain ⟨c, hc⟩ := h.width_dvd
  simp only [width] at hb hc
  rw [marked, seenAt_eq_get]
  have hval : ((t - BitVec.ofNat 32 d).toNat : ℤ) ≡ t.toNat - d [ZMOD (64 * bm.length : ℕ)] := by
    have hcases : ((t - BitVec.ofNat 32 d).toNat : ℤ) = t.toNat - d ∨
        ((t - BitVec.ofNat 32 d).toNat : ℤ) = t.toNat - d + 2 ^ 32 := by bv_omega
    rcases hcases with heq | heq
    · rw [heq]
    · rw [heq]
      refine Int.modEq_iff_dvd.mpr ⟨-c, ?_⟩
      have hpow : (2 : ℤ) ^ 32 = ((64 * bm.length : ℕ) : ℤ) * c := by exact_mod_cast hc
      rw [hpow]
      ring
  exact hval.symm

/-- A shift by `inc` moves the marks down, clears the new ones and sets the mark of the new top. -/
theorem shift_marked_iff (h : sa.window.WF) {inc : BitVec 32}
    (hmask : bmi2 = true ∨ sa.window.width = 64 ∨ ¬ (inc.toNat = 64 ∧ (sa.seq.toNat + 1) % 64 = 0))
    (hwin : sa'.window = (ipsecSaAntiReplayWindowShift bmi2 sa inc).1)
    (hseq : sa'.seq = sa.seq + inc) {d : ℕ} (hd : d < sa.window.width) :
    sa'.marked d = true ↔ d = 0 ∨ inc.toNat ≤ d ∧ sa.marked (d - inc.toNat) = true := by
  obtain ⟨t, th, w, esn, ar⟩ := sa
  obtain ⟨t', th', w', esn', ar'⟩ := sa'
  subst hwin hseq
  cases w with
  | word w =>
    simp only [width] at hd
    simp only [ipsecSaAntiReplayWindowShift]
    have htop : ((64 : BitVec 32) - 1).toNat % 64 = 63 := rfl
    have hnew : (1#64 <<< 63).getLsbD (63 - d) = decide (d = 0) := by
      rw [BitVec.getLsbD_shiftLeft, BitVec.getLsbD_one]
      rcases eq_zero_or_pos d with rfl | hpos
      · rfl
      · simp [show 63 - d < 63 by omega, show d ≠ 0 by omega]
    split
    · next hlt =>
      have hinc : inc.toNat < 64 := hlt
      simp only [marked, size, htop]
      rw [BitVec.getLsbD_or, BitVec.getLsbD_ushiftRight, hnew, Nat.mod_eq_of_lt hinc]
      by_cases hle : inc.toNat ≤ d
      · have hidx : inc.toNat + (63 - d) = 63 - (d - inc.toNat) := by omega
        simp [hidx, hle, or_comm]
      · rw [BitVec.getLsbD_of_ge _ _ (by omega)]
        simp [hle]
    · next hge =>
      have hinc : 64 ≤ inc.toNat := le_of_not_gt hge
      simp only [marked, size, htop]
      rw [hnew]
      simp [show ¬ inc.toNat ≤ d by omega]
  | huge bm =>
    obtain ⟨k, hk1, hk25, hk⟩ := id h
    have h128 : 64 * 2 ≤ 64 * bm.length := by
      rw [hk]
      exact Nat.mul_le_mul_left 64 (by simpa using Nat.pow_le_pow_right (n := 2) (by decide) hk1)
    have hmask' : bmi2 = true ∨ ¬ (inc.toNat = 64 ∧ (t.toNat + 1) % 64 = 0) ∨
        ringOnes bm ((t.toNat + 1) % (64 * bm.length)) inc.toNat = 0 := by
      rcases hmask with hm | hm | hm
      · exact .inl hm
      · simp only [width] at hm
        omega
      · exact .inr (.inl hm)
    obtain ⟨bm', hshift, hlen, hmarks⟩ :=
      @windowShift_huge_marks bmi2 ⟨t, th, .huge bm, esn, ar⟩ bm inc rfl h hmask'
    simp only [width] at hd
    dsimp only at hmarks
    have hWF : (huge bm').WF := ⟨k, hk1, hk25, hlen.trans hk⟩
    have hplace : seenAt bm' ((t + inc).toNat - d) = seenAt bm' (t.toNat + inc.toNat - d) :=
      seenAt_congr ((hlen ▸ modEq_of_add h t inc).sub_right d)
    rw [hshift, seenAt_eq_marked hWF _ _ _ _ (by omega), hplace, hmarks _ (by omega) (by omega)]
    refine or_congr (by omega) ?_
    by_cases hle : inc.toNat ≤ d
    · have hidx : (t.toNat : ℤ) + inc.toNat - d = t.toNat - ((d - inc.toNat : ℕ) : ℤ) := by omega
      rw [seenAt_eq_marked h _ _ _ _ (by omega), hidx]
      simp [hle]
    · simp only [hle, false_and, iff_false, not_and]
      omega

end

/-! ### The invariant of a run -/

/-- Beside what keeps repeats out: the marks are exact, and no packet is a whole turn of the low half above the top. -/
structure EspState.Exact (st : EspState) : Prop where
  inv : st.Inv
  tracks : Tracks st.sa.window.width st.sa.top (fun d => st.sa.marked d = true) (st.accepted.map sn)
  near : ∀ p ∈ st.inFlight, p.sn < st.sa.top + 2 ^ 32

/-- The packets that are decrypted are in reach, and the window can be moved up to them. -/
def InReachAndMask (bmi2 : Bool) (st : EspState) (ev : EspEvent) : Prop :=
  InReach st ev ∧
    match ev with
    | .decrypted i => ∀ p ∈ st.inFlight[i]?, MaskFits bmi2 st.sa p.seq
    | _ => True

instance (bmi2 : Bool) (st : EspState) : ∀ ev, Decidable (InReachAndMask bmi2 st ev)
  | .decrypted i =>
    inferInstanceAs (Decidable (InReach st (.decrypted i) ∧ ∀ p ∈ st.inFlight[i]?, MaskFits bmi2 st.sa p.seq))
  | .receive _ => isTrue ⟨trivial, trivial⟩
  | .failed _ => isTrue ⟨trivial, trivial⟩

theorem addAndLock_exact (useEsn : Bool) {windowSize : BitVec 32} (hw : windowSize.toNat ≤ 2 ^ 31) :
    (init (ipsecSaAddAndLock useEsn true windowSize)).Exact := by
  obtain ⟨-, hmarks⟩ := addAndLock_window useEsn hw
  have htop : (ipsecSaAddAndLock useEsn true windowSize).top = 0 := by
    simp [top, fullSn, ipsecSaAddAndLock]
  refine ⟨addAndLock_inv useEsn hw, ?_, by simp [init]⟩
  simp only [init, htop]
  exact Tracks.init hmarks

variable {st : EspState} {sa : IpsecSa}

/-- The number that the pre-decrypt check stands for is less than a turn of the low half above the top. -/
theorem receive_near (h : st.Inv) {seq : BitVec 32}
    (hpass : (ipsecSaAntiReplayAndSnAdvance st.sa seq (~~~0) false).1 = false) :
    fullSn (ipsecSaAntiReplayAndSnAdvance st.sa seq (~~~0) false).2 seq < st.sa.top + 2 ^ 32 := by
  have hb := h.window.width_bounds
  have hhi := receive_hi_le h.window h.antiReplay h.covers.below_zero hpass
  by_cases hesn : st.sa.useEsn = true
  · rcases check_cases_esn h.window h.antiReplay hesn seq with
      ⟨hleft, hr⟩ | ⟨-, -, hr⟩ | ⟨-, -, hr⟩ | ⟨hacross, hr⟩ <;> rw [hr] at hhi ⊢ <;>
      simp only [fullSn, top, if_neg (by decide : ¬ (false = true))] at hhi ⊢ <;> bv_omega
  · have hoff : st.sa.useEsn = false := by simpa using hesn
    rw [(check_cases_no_esn h.window h.antiReplay hoff seq (~~~0) false).1]
    simp only [fullSn]
    bv_omega

theorem espReceive_exact (h : st.Exact) (seq : BitVec 32) : (espReceive st seq).Exact := by
  have hinv := espReceive_inv h.inv seq
  unfold espReceive at hinv ⊢
  simp only at hinv ⊢
  split at hinv
  · next hdrop =>
    rw [if_pos hdrop]
    exact h
  · next hpass =>
    rw [if_neg hpass]
    exact ⟨hinv, h.tracks, forall_mem_cons.mpr ⟨receive_near h.inv (by simpa using hpass), h.near⟩⟩

theorem EspState.Exact.eraseIdx (h : st.Exact) (i : ℕ) :
    Exact { st with inFlight := st.inFlight.eraseIdx i } :=
  ⟨h.inv.eraseIdx i, h.tracks, fun p hp => h.near p (mem_of_mem_eraseIdx hp)⟩

section
variable {p : Packet} {accepted : List ℕ} (h : sa.window.WF)
  (ht : Tracks sa.window.width sa.top (fun d => sa.marked d = true) accepted)
  (hesn : sa.useEsn = false → p.hiSeq = sa.seqHi)
include h ht hesn

/-- Recording a packet above the top. -/
theorem tracks_advance_above (hhi : p.hiSeq.toNat ≤ sa.seqHi.toNat + 1) (habove : sa.top < p.sn)
    (hnear : p.sn < sa.top + 2 ^ 32) (hmask : MaskFits bmi2 sa p.seq) :
    let sa' := (ipsecSaAntiReplayAdvance bmi2 sa p.seq p.hiSeq).1
    Tracks sa'.window.width sa'.top (fun d => sa'.marked d = true) (p.sn :: accepted) := by
  obtain ⟨-, hwidth, htop, hwin, hseq⟩ := advance_above_window bmi2 hesn h hhi habove
  simp only [hwidth, htop]
  refine ht.slide habove fun d hd => ?_
  have hinc : (p.seq - sa.seq).toNat = p.sn - sa.top := by
    simp only [top, sn, fullSn] at habove hnear ⊢
    bv_omega
  rw [← hinc]
  exact shift_marked_iff h hmask hwin hseq hd

/-- Recording a packet inside the window. -/
theorem tracks_advance_below (bmi2 : Bool) (hle : p.sn ≤ sa.top)
    (hdist : (sa.seq - p.seq).toNat = sa.top - p.sn) (hW : sa.top - p.sn < sa.window.width) :
    let sa' := (ipsecSaAntiReplayAdvance bmi2 sa p.seq p.hiSeq).1
    Tracks sa'.window.width sa'.top (fun d => sa'.marked d = true) (p.sn :: accepted) := by
  obtain ⟨-, hwidth, htop, hmark⟩ := advance_below_window bmi2 hesn h hle hdist hW
  simp only [hwidth, htop]
  refine ht.fill hle fun d hd => ?_
  simp [hmark d hd]

end

theorem espPostCrypto_exact (h : st.Exact) {p : Packet}
    (hhi : p.hiSeq.toNat ≤ st.sa.seqHi.toNat + 1) (hoff : st.sa.useEsn = false → p.hiSeq = 0)
    (hreach : st.sa.seqHi ≤ p.hiSeq ∨ st.sa.top < p.sn + st.sa.window.width)
    (hnear : p.sn < st.sa.top + 2 ^ 32) (hmask : MaskFits bmi2 st.sa p.seq) : (espPostCrypto bmi2 st p).Exact := by
  have hinv := espPostCrypto_inv bmi2 h.inv hhi hoff hreach
  have hesn : st.sa.useEsn = false → p.hiSeq = st.sa.seqHi := fun hf =>
    (hoff hf).trans (h.inv.no_esn hf).1.symm
  unfold espPostCrypto at hinv ⊢
  split at hinv
  · next hdrop =>
    rw [if_pos hdrop]
    exact h
  · next hpass =>
    rw [if_neg hpass]
    rcases lt_or_ge st.sa.top p.sn with habove | hle
    · have htracks := tracks_advance_above h.inv.window h.tracks hesn hhi habove hnear hmask
      obtain ⟨-, -, htop, -⟩ := advance_above_window bmi2 hesn h.inv.window hhi habove
      refine ⟨hinv, htracks, fun q hq => ?_⟩
      have hq' := h.near q hq
      simp only [htop]
      omega
    · obtain ⟨hdist, hW, -⟩ :=
        postDecrypt_pass h.inv.window h.inv.antiReplay hesn hreach hle (by simpa using hpass)
      have htracks := tracks_advance_below h.inv.window h.tracks hesn bmi2 hle hdist hW
      obtain ⟨-, -, htop, -⟩ := advance_below_window bmi2 hesn h.inv.window hle hdist hW
      refine ⟨hinv, htracks, fun q hq => ?_⟩
      simp only [htop]
      exact h.near q hq

theorem espStep_exact (h : st.Exact) {ev : EspEvent} (hok : InReachAndMask bmi2 st ev) :
    (espStep bmi2 st ev).Exact := by
  cases ev with
  | receive seq => exact espReceive_exact h seq
  | failed i => exact h.eraseIdx i
  | decrypted i =>
    simp only [espStep]
    cases hp : st.inFlight[i]? with
    | none => exact h
    | some p =>
      have hmem : p ∈ st.inFlight := mem_of_getElem? hp
      obtain ⟨hreach, hmask⟩ := hok
      refine espPostCrypto_exact (h.eraseIdx i) (h.inv.hi_le p hmem) (fun hoff => (h.inv.no_esn hoff).2 p hmem) ?_
        (h.near p hmem) (hmask p hp)
      rw [← h.inv.window.size_toNat]
      exact hreach p hp

/-! ### What is accepted -/

section
variable {st : EspState} {seq : BitVec 32}

/-- A number inside the window is marked if it was accepted, or is not above zero. -/
theorem EspState.Exact.check_iff (h : st.Exact) {n : ℤ} (hn : st.sa.top - n = (st.sa.seq - seq).toNat)
    (hd : (st.sa.seq - seq).toNat < st.sa.window.width) :
    ipsecSaAntiReplayCheck st.sa seq = false ↔ ShouldAccept st.sa.window.width st.sa.top (st.accepted.map sn) n := by
  have hmark := h.tracks.mark_iff _ hd
  have hold : ¬ (st.sa.top : ℤ) < n := by omega
  rw [check_eq_marked h.inv.window hd, ← Bool.not_eq_true, hmark, ShouldAccept]
  simp only [hold, false_or, not_or, not_le]
  constructor
  · rintro ⟨hpos, hfresh⟩
    refine ⟨by omega, by omega, fun m hm heq => hfresh ?_⟩
    have hsub : st.sa.top - (st.sa.seq - seq).toNat = m := by omega
    rwa [hsub]
  · rintro ⟨-, hpos, hfresh⟩
    exact ⟨by omega, fun hmem => hfresh _ hmem (by omega)⟩

/-- Without extended numbers, where `seq + window_size` does not leave the 32 bits. -/
theorem espAlone_no_esn (h : st.Exact) (hoff : st.sa.useEsn = false)
    (hfits : seq ≤ st.sa.seq → seq.toNat + st.sa.window.width < 2 ^ 32 ∨ seq.toNat ∈ st.accepted.map sn) :
    (espAlone st.sa seq).isSome = true ↔
      ShouldAccept st.sa.window.width st.sa.top (st.accepted.map sn) seq.toNat := by
  have hsize := h.inv.window.size_toNat
  have har := h.inv.antiReplay
  have htop : st.sa.top = st.sa.seq.toNat := by simp [top, fullSn, (h.inv.no_esn hoff).1]
  by_cases hgt : seq > st.sa.seq
  · have habove : (st.sa.top : ℤ) < seq.toNat := by rw [htop]; exact_mod_cast hgt
    simp [espAlone, ipsecSaAntiReplayAndSnAdvance, hoff, har, hgt, ShouldAccept, habove]
  · have hle : seq.toNat ≤ st.sa.seq.toNat := le_of_not_gt hgt
    have hold : ¬ (st.sa.top : ℤ) < seq.toNat := by omega
    by_cases hleft : st.sa.seq ≥ seq + st.sa.window.size
    · simp only [espAlone, ipsecSaAntiReplayAndSnAdvance, hoff, har, hgt, hleft, Bool.not_true, Bool.not_false,
        Bool.false_eq_true, if_true, if_false, isSome_none, false_iff]
      rintro (habove | ⟨hnear, -, hfresh⟩)
      · exact hold habove
      · rcases hfits hle with hfit | hmem
        · have hsum : (seq + st.sa.window.size).toNat = seq.toNat + st.sa.window.width := by bv_omega
          have hge : seq.toNat + st.sa.window.width ≤ st.sa.seq.toNat := hsum ▸ hleft
          omega
        · exact hfresh _ hmem rfl
    · have hdist : (st.sa.seq - seq).toNat = st.sa.seq.toNat - seq.toNat := by bv_omega
      have hcheck := @EspState.Exact.check_iff st seq h seq.toNat (by omega) (by bv_omega)
      rw [← hcheck]
      cases hc : ipsecSaAntiReplayCheck st.sa seq <;>
        simp [espAlone, ipsecSaAntiReplayAndSnAdvance, hoff, har, hgt, hleft, hc]

/-- The two checks, one after the other. -/
theorem espAlone_eq {drop drop' : Bool} {hi hi' : BitVec 32}
    (hpre : ipsecSaAntiReplayAndSnAdvance sa seq (~~~0) false = (drop, hi))
    (hpost : ipsecSaAntiReplayAndSnAdvance sa seq hi true = (drop', hi')) :
    espAlone sa seq = if drop || drop' then none else some hi := by
  simp only [espAlone, hpre, hpost]
  cases drop <;> simp

/-- With extended numbers: the high half that the first check asks for, and what comes out of both. -/
theorem espAlone_cases (h : sa.window.WF) (har : sa.useAntiReplay = true) (hon : sa.useEsn = true)
    (seq : BitVec 32) :
    let hi := (ipsecSaAntiReplayAndSnAdvance sa seq (~~~0) false).2
    let checked := if ipsecSaAntiReplayCheck sa seq then none else some hi
    (seq.toNat + sa.window.width ≤ sa.seq.toNat ∧ hi = sa.seqHi + 1 ∧ espAlone sa seq = some hi) ∨
      (seq.toNat ≤ sa.seq.toNat ∧ sa.seq.toNat < seq.toNat + sa.window.width ∧ hi = sa.seqHi ∧
        espAlone sa seq = checked) ∨
      (sa.seq.toNat < seq.toNat ∧ seq.toNat + sa.window.width ≤ sa.seq.toNat + 2 ^ 32 ∧ hi = sa.seqHi ∧
        espAlone sa seq = some hi) ∨
      (sa.seq.toNat + 2 ^ 32 < seq.toNat + sa.window.width ∧ hi = sa.seqHi - 1 ∧ espAlone sa seq = checked) := by
  intro hi checked
  have hb := h.width_bounds
  -- the second check is in the same case as the first, since the SA has not changed
  rcases check_cases_esn h har hon seq with ⟨h1, hr⟩ | ⟨h1, h2, hr⟩ | ⟨h1, h2, hr⟩ | ⟨h1, hr⟩
  · have hhi : hi = sa.seqHi + 1 := congrArg Prod.snd (hr _ _)
    have hne : decide (sa.seqHi + 1 = sa.seqHi) = false := decide_eq_false (by bv_omega)
    have hpost := hr (sa.seqHi + 1) true
    rw [if_pos rfl, hne] at hpost
    exact .inl ⟨h1, hhi, by rw [espAlone_eq (hr _ _) hpost, hhi]; rfl⟩
  · have hhi : hi = sa.seqHi := congrArg Prod.snd (hr _ _)
    exact .inr (.inl ⟨h1, h2, hhi, by rw [espAlone_eq (hr _ _) (hr _ _), Bool.or_self, ← hhi]⟩)
  · have hhi : hi = sa.seqHi := congrArg Prod.snd (hr _ _)
    exact .inr (.inr (.inl ⟨h1, h2, hhi, by rw [espAlone_eq (hr _ _) (hr _ _), hhi]; rfl⟩))
  · have hhi : hi = sa.seqHi - 1 := congrArg Prod.snd (hr _ _)
    exact .inr (.inr (.inr ⟨h1, hhi, by rw [espAlone_eq (hr _ _) (hr _ _), Bool.or_self, ← hhi]⟩))

/-- With extended numbers. -/
theorem espAlone_esn (seq : BitVec 32) (h : st.Exact) (hon : st.sa.useEsn = true) :
    ∃ hi : ℤ, (ipsecSaAntiReplayAndSnAdvance st.sa seq (~~~0) false).2 = BitVec.ofInt 32 hi ∧
      (st.sa.top - st.sa.window.width + 1 ≤ hi * 2 ^ 32 + seq.toNat ∧
        hi * 2 ^ 32 + seq.toNat ≤ st.sa.top - st.sa.window.width + 2 ^ 32) ∧
      ((espAlone st.sa seq).isSome = true ↔
        ShouldAccept st.sa.window.width st.sa.top (st.accepted.map sn) (hi * 2 ^ 32 + seq.toNat)) := by
  have hb := h.inv.window.width_bounds
  have htop : st.sa.top = st.sa.seqHi.toNat * 2 ^ 32 + st.sa.seq.toNat := rfl
  have hchecked (hi : BitVec 32) : (if ipsecSaAntiReplayCheck st.sa seq then none else some hi).isSome = true ↔
      ipsecSaAntiReplayCheck st.sa seq = false := by
    cases ipsecSaAntiReplayCheck st.sa seq <;> simp
  rcases espAlone_cases h.inv.window h.inv.antiReplay hon seq with
    ⟨h1, hhi, hout⟩ | ⟨h1, h2, hhi, hout⟩ | ⟨h1, h2, hhi, hout⟩ | ⟨h1, hhi, hout⟩
  · refine ⟨st.sa.seqHi.toNat + 1, ?_, by omega, ?_⟩
    · rw [hhi, BitVec.ofInt_add]
      simp
    · rw [hout, isSome_some]
      exact iff_of_true rfl (.inl (by omega))
  · refine ⟨st.sa.seqHi.toNat, ?_, by omega, ?_⟩
    · rw [hhi]
      simp
    · rw [hout, hchecked]
      exact h.check_iff (by bv_omega) (by bv_omega)
  · refine ⟨st.sa.seqHi.toNat, ?_, by omega, ?_⟩
    · rw [hhi]
      simp
    · rw [hout, isSome_some]
      exact iff_of_true rfl (.inl (by omega))
  · refine ⟨st.sa.seqHi.toNat - 1, ?_, by omega, ?_⟩
    · rw [hhi, Int.sub_eq_add_neg, BitVec.ofInt_add, BitVec.sub_eq_add_neg]
      simp
    · rw [hout, hchecked]
      exact h.check_iff (by bv_omega) (by bv_omega)

end

theorem useEsn_advance (bmi2 : Bool) (sa : IpsecSa) (seq hi : BitVec 32) :
    (ipsecSaAntiReplayAdvance bmi2 sa seq hi).1.useEsn = sa.useEsn := by
  simp only [ipsecSaAntiReplayAdvance]
  split_ifs <;> rfl

theorem useEsn_espStep (bmi2 : Bool) (st : EspState) (ev : EspEvent) : (espStep bmi2 st ev).sa.useEsn =
    st.sa.useEsn := by
  cases ev with
  | receive seq =>
    simp only [espStep, espReceive]
    split_ifs <;> rfl
  | failed i => rfl
  | decrypted i =>
    simp only [espStep]
    cases st.inFlight[i]? with
    | none => rfl
    | some p =>
      simp only [espPostCrypto]
      split_ifs
      · rfl
      · exact useEsn_advance bmi2 _ _ _

/-- In every run whose decrypted packets are in reach and whose shifts fit the mask, a packet by itself is accepted
    exactly if it should be, unless without extended numbers `seq + window_size` leaves the 32 bits. -/
theorem espAlone_accepts_iff (bmi2 useEsn : Bool) {windowSize : BitVec 32} (hw : windowSize.toNat ≤ 2 ^ 31)
    {evs : List EspEvent}
    (hsteps : AllSteps (InReachAndMask bmi2) (espStep bmi2)
      (init (ipsecSaAddAndLock useEsn true windowSize)) evs) (seq : BitVec 32) :
    let st := run (espStep bmi2) (init (ipsecSaAddAndLock useEsn true windowSize)) evs
    let W := st.sa.window.width
    let accepted := st.accepted.map sn
    st.sa.top = accepted.foldr max 0 ∧
      (useEsn = false → (seq ≤ st.sa.seq → seq.toNat + W < 2 ^ 32 ∨ seq.toNat ∈ accepted) →
        st.sa.top = st.sa.seq.toNat ∧
        ((espAlone st.sa seq).isSome = true ↔ ShouldAccept W st.sa.top accepted seq.toNat)) ∧
      (useEsn = true → ∃ hi : ℤ, (ipsecSaAntiReplayAndSnAdvance st.sa seq (~~~0) false).2 = BitVec.ofInt 32 hi ∧
        (∀ hi' : ℤ, (st.sa.top - W + 1 ≤ hi' * 2 ^ 32 + seq.toNat ∧
          hi' * 2 ^ 32 + seq.toNat ≤ st.sa.top - W + 2 ^ 32) ↔
          hi' = hi) ∧
        ((espAlone st.sa seq).isSome = true ↔ ShouldAccept W st.sa.top accepted (hi * 2 ^ 32 + seq.toNat))) := by
  intro st W accepted
  have hinv : st.Exact ∧ st.sa.useEsn = useEsn := by
    refine run_inv (P := fun st => st.Exact ∧ st.sa.useEsn = useEsn) (fun st ev hst hok => ?_) hsteps
      ⟨addAndLock_exact useEsn hw, rfl⟩
    exact ⟨espStep_exact hst.1 hok, (useEsn_espStep bmi2 st ev).trans hst.2⟩
  obtain ⟨h, hesn⟩ := hinv
  refine ⟨h.tracks.top_eq, fun hoff hfits => ⟨?_, ?_⟩, fun hon => ?_⟩
  · simp [top, fullSn, (h.inv.no_esn (hesn.trans hoff)).1]
  · exact espAlone_no_esn h (hesn.trans hoff) hfits
  · obtain ⟨hi, hpre, hbounds, hout⟩ := espAlone_esn seq h (hesn.trans hon)
    refine ⟨hi, hpre, fun hi' => ⟨fun hi'bounds => ?_, ?_⟩, hout⟩
    · omega
    · rintro rfl
      exact hbounds

/-- Numbers 5, 90 and 100 are accepted; then 90 comes again, and 37, the oldest of the window, for the first time. -/
theorem espAlone_accepts_iff_sample :
    let st := run (espStep true) (init (ipsecSaAddAndLock false true 64))
      [.receive 5, .decrypted 0, .receive 90, .decrypted 0, .receive 100, .decrypted 0]
    ((espAlone st.sa 37).isSome = true ↔ ShouldAccept 64 100 [100, 90, 5] 37) ∧
      ((espAlone st.sa 90).isSome = true ↔ ShouldAccept 64 100 [100, 90, 5] 90) :=
  ⟨((espAlone_accepts_iff true false (by decide) (by decide +kernel) 37).2.1 rfl (fun _ => by decide +kernel)).2,
    ((espAlone_accepts_iff true false (by decide) (by decide +kernel) 90).2.1 rfl (fun _ => by decide +kernel)).2⟩

/-- Without extended numbers, 0xFFFFFFFE is new and inside the window when 0xFFFFFFFF has been accepted, and is turned
    away. And without BMI2, in a window of 128 numbers, so is 100 after 63 and 127. -/
theorem espAlone_turns_away :
    (let st := run (espStep true) (init (ipsecSaAddAndLock false true 64)) [.receive 0xFFFFFFFF, .decrypted 0];
      ShouldAccept 64 st.sa.seq.toNat (st.accepted.map sn) 0xFFFFFFFE ∧ espAlone st.sa 0xFFFFFFFE = none) ∧
    (let st := run (espStep false) (init (ipsecSaAddAndLock false true 128))
        [.receive 63, .decrypted 0, .receive 127, .decrypted 0];
      ShouldAccept 128 st.sa.seq.toNat (st.accepted.map sn) 100 ∧ espAlone st.sa 100 = none) := by
  decide +kernel

/-! ### What is reported -/

/-- Bit 63 of the reported window is the mark of the highest number, and so on downwards. -/
theorem get64bWindow_eq_marked (bmi2 : Bool) {sa : IpsecSa} (h : sa.window.WF) {d : ℕ} (hd : d < 64) :
    (ipsecSaAntiReplayGet64bWindow bmi2 sa).getLsbD (63 - d) = sa.marked d := by
  obtain ⟨t, th, w, esn, ar⟩ := sa
  cases w with
  | word w => rfl
  | huge bm =>
    have hb := h.width_bounds
    simp only [width] at hb
    have hplace : (t.toNat : ℤ) - 63 + (63 - d : ℕ) = t.toNat - d := by omega
    rw [get64bWindow_seenAt bmi2 rfl h (by omega), seenAt_eq_marked h _ _ _ _ (by omega), ← hplace]

/-- In every run the window that is reported shows which of the last 64 numbers were accepted, whatever the size of
    the window that is kept. -/
theorem get64bWindow_shows_accepted (bmi2 useEsn : Bool) {windowSize : BitVec 32} (hw : windowSize.toNat ≤ 2 ^ 31)
    {evs : List EspEvent} (hsteps : AllSteps (InReachAndMask bmi2) (espStep bmi2)
      (init (ipsecSaAddAndLock useEsn true windowSize)) evs) :
    let st := run (espStep bmi2) (init (ipsecSaAddAndLock useEsn true windowSize)) evs
    ∀ d < 64, (ipsecSaAntiReplayGet64bWindow bmi2 st.sa).getLsbD (63 - d) = true ↔
      st.sa.top ≤ d ∨ st.sa.top - d ∈ st.accepted.map sn := by
  intro st d hd
  have h : st.Exact := run_inv (fun _ _ hst hok => espStep_exact hst hok) hsteps (addAndLock_exact useEsn hw)
  rw [get64bWindow_eq_marked bmi2 h.inv.window hd]
  exact h.tracks.mark_iff d (hd.trans_le h.inv.window.width_bounds.1)

/-- A window of 128 numbers, after 5, 90 and 100. -/
theorem get64bWindow_shows_90 :
    let st := run (espStep false) (init (ipsecSaAddAndLock true true 128))
      [.receive 5, .decrypted 0, .receive 90, .decrypted 0, .receive 100, .decrypted 0]
    (ipsecSaAntiReplayGet64bWindow false st.sa).getLsbD 53 = true ↔
      st.sa.top ≤ 10 ∨ st.sa.top - 10 ∈ st.accepted.map sn :=
  get64bWindow_shows_accepted false true (by decide) (by decide +kernel) 10 (by decide)

end Vpp.Ipsec
