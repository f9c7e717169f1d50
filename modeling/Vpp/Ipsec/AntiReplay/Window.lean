import Vpp.Ipsec.AntiReplay.HugeShift

/-! What the replay window of an SA stands for, whichever of its two representations it has.

    `marked sa d` is the mark of the number `d` places below the highest one. The single-word window
    keeps it at bit `63 - d`; the huge window is a ring of `W` bits indexed by the sequence number
    modulo `W`. Each operation of the model is described once in these terms: the check reads a mark
    (`check_eq_marked`), a shift by `inc` moves the marks down and sets mark 0 (`shift_marked`), and
    recording an old number sets its mark (`setMark_marked`). -/

namespace Vpp.Ipsec
open Vpp.Vppinfra BitVec ReplayWindow IpsecSa ReplayWindow
open BitVec (ofNat)

/-- The number of marks. -/
def ReplayWindow.width : ReplayWindow → ℕ
  | .word _ => 64
  | .huge bm => 64 * bm.length

/-- A huge window is a power-of-two number of words, at least two and at most `2 ^ 31` bits. -/
def ReplayWindow.WF : ReplayWindow → Prop
  | .word _ => True
  | .huge bm => ∃ k, 1 ≤ k ∧ k ≤ 25 ∧ bm.length = 2 ^ k

/-- The mark of the number `d` below the highest one. -/
def IpsecSa.marked (sa : IpsecSa) (d : ℕ) : Bool :=
  match sa.window with
  | .word w => w.getLsbD (63 - d)
  | .huge bm => clibBitmapGet bm ((sa.seq - ofNat 32 d).toNat % (64 * bm.length))

variable {w : ReplayWindow} {sa : IpsecSa}

section
variable (h : w.WF)
include h

theorem ReplayWindow.WF.width_eq_pow :
    ∃ m, 6 ≤ m ∧ m ≤ 31 ∧ w.width = 2 ^ m := by
  cases w with
  | word w => exact ⟨6, le_refl _, by decide, rfl⟩
  | huge bm =>
    obtain ⟨k, hk1, hk2, hlen⟩ := h
    exact ⟨k + 6, by omega, by omega, by rw [width, hlen, pow_add]; omega⟩

theorem ReplayWindow.WF.width_dvd : w.width ∣ 2 ^ 32 := by
  obtain ⟨m, _, hm, hw⟩ := h.width_eq_pow
  rw [hw]; exact pow_dvd_pow 2 (by omega)

theorem ReplayWindow.WF.width_bounds :
    64 ≤ w.width ∧ w.width ≤ 2 ^ 31 := by
  obtain ⟨m, hm6, hm31, hw⟩ := h.width_eq_pow
  rw [hw]
  exact ⟨by simpa using Nat.pow_le_pow_right (n := 2) (by decide) hm6,
    Nat.pow_le_pow_right (by decide) hm31⟩

theorem ReplayWindow.WF.size_toNat : w.size.toNat = w.width := by
  have hb := h.width_bounds
  cases w with
  | word w => rfl
  | huge bm =>
    simp only [width] at hb
    simp only [size, width, toNat_ofNat]
    omega

/-- Masking with `window_size - 1` is reduction modulo the window size. -/
theorem ReplayWindow.WF.and_size (x : BitVec 32) :
    (x &&& (w.size - 1)).toNat = x.toNat % w.width := by
  obtain ⟨m, hm6, hm31, hw⟩ := h.width_eq_pow
  have hs := h.size_toNat
  have hb := h.width_bounds
  have h1 : (w.size - 1).toNat = 2 ^ m - 1 := by rw [← hw, ← hs]; bv_omega
  rw [toNat_and, h1, Nat.and_two_pow_sub_one_eq_mod, hw]

/-- Places in the ring add like the numbers they come from. -/
theorem ReplayWindow.WF.add_mod_width (x y : BitVec 32) :
    (x + y).toNat % w.width = (x.toNat + y.toNat) % w.width := by
  rw [toNat_add, Nat.mod_mod_of_dvd _ h.width_dvd]

/-- Numbers less than a window apart have different places in the ring. -/
theorem ReplayWindow.WF.place_inj (t : BitVec 32) {d e : ℕ} (hd : d < w.width)
    (he : e < w.width)
    (heq : (t - ofNat 32 d).toNat % w.width = (t - ofNat 32 e).toNat % w.width) :
    d = e := by
  have hb := h.width_bounds
  have hback : ∀ c, (t.toNat + w.width) % w.width =
      ((t - ofNat 32 c).toNat % w.width + (ofNat 32 c).toNat) % w.width := by
    intro c
    rw [Nat.mod_add_mod, ← h.add_mod_width, sub_add_cancel, Nat.add_mod_right]
  have hde := (hback d).symm.trans (hback e)
  rw [heq, toNat_ofNat, toNat_ofNat, Nat.mod_eq_of_lt (show d < 2 ^ 32 by omega),
    Nat.mod_eq_of_lt (show e < 2 ^ 32 by omega)] at hde
  have hmod : d % w.width = e % w.width := Nat.ModEq.add_left_cancel' _ hde
  rwa [Nat.mod_eq_of_lt hd, Nat.mod_eq_of_lt he] at hmod

end

theorem sub_ofNat_distance (t seq : BitVec 32) : t - ofNat 32 (t - seq).toNat = seq := by
  rw [ofNat_toNat, setWidth_eq]; bv_omega

/-- Inside the window, the replay check reads the mark of the packet. -/
theorem check_eq_marked (h : sa.window.WF) {seq : BitVec 32}
    (hd : (sa.seq - seq).toNat < sa.window.width) :
    ipsecSaAntiReplayCheck sa seq = sa.marked (sa.seq - seq).toNat := by
  obtain ⟨t, th, w, e, ar⟩ := sa
  cases w with
  | word w =>
    simp only [width] at hd
    have hbit : (64 + seq - t - 1).toNat % 64 = 63 - (t - seq).toNat := by bv_omega
    simp only [ipsecSaAntiReplayCheck, marked, size]
    rw [hbit]; simp
  | huge bm =>
    simp only [ipsecSaAntiReplayCheck, marked]
    rw [h.and_size, sub_ofNat_distance]
    rfl

/-! ### Recording an old number -/

theorem setMark_shape (h : sa.window.WF) (seq pos : BitVec 32) :
    (sa.setMark seq pos).WF ∧ (sa.setMark seq pos).width = sa.window.width := by
  obtain ⟨t, th, w, esn, ar⟩ := sa
  cases w with
  | word w => exact ⟨trivial, rfl⟩
  | huge bm =>
    simp only [setMark, WF, width, length_clibBitmapSetNoCheck]
    exact ⟨h, trivial⟩

/-- Setting the mark of a number inside the window sets that mark and keeps the others. -/
theorem setMark_marked (h : sa.window.WF) {seq pos : BitVec 32}
    (hd : (sa.seq - seq).toNat < sa.window.width) (hpos : pos = sa.seq - seq) {e : ℕ}
    (he : e < sa.window.width) :
    IpsecSa.marked { sa with window := sa.setMark seq pos } e =
      (decide (e = (sa.seq - seq).toNat) || sa.marked e) := by
  obtain ⟨t, th, w, esn, ar⟩ := sa
  cases w with
  | word w =>
    simp only [width] at hd he hpos
    generalize hde : (t - seq).toNat = d at *
    have hbit : (64 - 1 - pos).toNat % 64 = 63 - d := by bv_omega
    have h63 : 63 - e < 64 := by omega
    simp only [marked, setMark, size, hbit, getLsbD_or,
      getLsbD_shiftLeft, getLsbD_one]
    by_cases hed : e = d
    · subst hed; simp [h63]
    · by_cases hlt : 63 - e < 63 - d
      · simp [hlt, hed]
      · have : ¬ 63 - e - (63 - d) = 0 := by omega
        simp [h63, hlt, hed, this]
  | huge bm =>
    have hseq := sub_ofNat_distance t seq
    have hn : 0 < bm.length := by simp only [width] at hd; omega
    have hplace : (seq.toNat % (64 * bm.length) = (t - ofNat 32 e).toNat % (64 * bm.length)) ↔
        e = (t - seq).toNat := by
      constructor
      · intro heq
        exact h.place_inj t he hd (by rw [hseq]; exact heq.symm)
      · rintro rfl; rw [hseq]
    simp only [marked, setMark]
    rw [h.and_size, width, length_clibBitmapSetNoCheck,
      clibBitmapGet_setNoCheck_true _ (ring_word_lt hn _)]
    simp only [hplace]

/-! ### Moving the window up -/

/-- The huge branch of the shift, with its masks and shifts read as arithmetic modulo the ring. -/
theorem hugeWindowShift_eq (bmi2 : Bool) {bm : List Uword} (h : (huge bm).WF)
    (seq inc : BitVec 32) :
    hugeWindowShift bmi2 bm seq (huge bm).size inc =
      let r := clearMarks bmi2 bm bm.length ((seq + 1).toNat % (64 * bm.length))
        (((seq + 1).toNat % (64 * bm.length) + inc.toNat) % (64 * bm.length)) inc.toNat
      (clibBitmapSetNoCheck r.1 ((seq + inc).toNat % (64 * bm.length)) true, r.2) := by
  have hblocks : (huge bm).size.toNat >>> 6 = bm.length := by
    rw [h.size_toNat, width, Nat.shiftRight_eq_div_pow]; omega
  simp only [hugeWindowShift]
  rw [h.and_size, h.and_size, h.and_size, h.add_mod_width (seq + 1 &&& _) inc, h.and_size, hblocks]
  rfl

/-- The window keeps its shape. -/
theorem shift_shape (bmi2 : Bool) (h : sa.window.WF) (inc : BitVec 32) :
    (ipsecSaAntiReplayWindowShift bmi2 sa inc).1.WF ∧
      (ipsecSaAntiReplayWindowShift bmi2 sa inc).1.width = sa.window.width := by
  obtain ⟨t, th, w, esn, ar⟩ := sa
  cases w with
  | word w => simp only [ipsecSaAntiReplayWindowShift]; split <;> exact ⟨trivial, rfl⟩
  | huge bm =>
    obtain ⟨k, hk1, hk2, hlen⟩ := id h
    simp only [ipsecSaAntiReplayWindowShift]
    split
    · simp only [hugeWindowShift_eq bmi2 h, WF, width,
        length_clibBitmapSetNoCheck, length_clearMarks]
      exact ⟨⟨k, hk1, hk2, hlen⟩, trivial⟩
    · simp only [WF, width, length_clibBitmapSetNoCheck,
        length_clibBitmapZero]
      exact ⟨⟨k, hk1, hk2, hlen⟩, trivial⟩

/-- The mark `c` places below the old top sits `64 * n - 1 - c` places above the old lower bound. -/
theorem ReplayWindow.WF.place_above_lower_bound (h : w.WF) (t : BitVec 32) {c : ℕ}
    (hc : c < w.width) :
    (t - ofNat 32 c).toNat % w.width =
      ((t + 1).toNat % w.width + (w.width - 1 - c)) % w.width := by
  have hb := h.width_bounds
  have hsum : t - ofNat 32 c + ofNat 32 w.width =
      t + 1 + ofNat 32 (w.width - 1 - c) := by bv_omega
  have hleft := h.add_mod_width (t - ofNat 32 c) (ofNat 32 w.width)
  rw [hsum, h.add_mod_width, toNat_ofNat, toNat_ofNat,
    Nat.mod_eq_of_lt (show w.width < 2 ^ 32 by omega),
    Nat.mod_eq_of_lt (show w.width - 1 - c < 2 ^ 32 by omega), Nat.add_mod_right] at hleft
  rw [Nat.mod_add_mod, hleft]

/-- Setting the bit of the highest number marks it and unmarks nothing. -/
theorem marked_of_setNoCheck {bm : List Uword} {n : ℕ} (hlen : bm.length = n) (hn : 0 < n)
    (t th : BitVec 32) (esn ar : Bool) (d : ℕ) :
    IpsecSa.marked ⟨t, th, .huge (clibBitmapSetNoCheck bm (t.toNat % (64 * n)) true), esn, ar⟩ d =
      (decide (t.toNat % (64 * n) = (t - ofNat 32 d).toNat % (64 * n)) ||
        clibBitmapGet bm ((t - ofNat 32 d).toNat % (64 * n))) := by
  subst hlen
  simp only [marked, length_clibBitmapSetNoCheck]
  rw [clibBitmapGet_setNoCheck_true _ (ring_word_lt hn _)]

/-- After a shift by `inc`, the new highest number is marked, and every older mark that still fits
    in the window has moved `inc` places down. -/
theorem shift_marked (bmi2 : Bool) {sa' : IpsecSa} (h : sa.window.WF) {inc : BitVec 32}
    (hwin : sa'.window = (ipsecSaAntiReplayWindowShift bmi2 sa inc).1)
    (hseq : sa'.seq = sa.seq + inc) :
    sa'.marked 0 = true ∧
      ∀ d, inc.toNat ≤ d → d < sa.window.width → sa.marked (d - inc.toNat) = true →
        sa'.marked d = true := by
  obtain ⟨t, th, w, esn, ar⟩ := sa
  obtain ⟨t', th', w', esn', ar'⟩ := sa'
  subst hwin hseq
  cases w with
  | word w =>
    simp only [ipsecSaAntiReplayWindowShift, width]
    split
    · next hlt =>
      refine ⟨by simp [marked, size], fun d hd hW hm => ?_⟩
      have hidx : 63 - (d - inc.toNat) = inc.toNat % 64 + (63 - d) := by omega
      simp only [marked, hidx] at hm ⊢
      rw [getLsbD_or, getLsbD_ushiftRight, hm, Bool.true_or]
    · next hge =>
      have hinc : 64 ≤ inc.toNat := le_of_not_gt hge
      exact ⟨by simp [marked, size], fun d hd hW _ => by omega⟩
  | huge bm =>
    obtain ⟨k, hk1, hk2, hlen⟩ := id h
    have hn : 0 < bm.length := hlen ▸ Nat.two_pow_pos k
    simp only [ipsecSaAntiReplayWindowShift]
    split
    · next hlt =>
      have hinc : inc.toNat < 64 * bm.length := by
        have : inc.toNat < (huge bm).size.toNat := hlt
        rwa [h.size_toNat] at this
      have hkeep := fun o => @clearMarks_keeps bm bmi2 k ((t + 1).toNat % (64 * bm.length))
        inc.toNat hlen (Nat.mod_lt _ (by omega)) o
      simp only [hugeWindowShift_eq bmi2 h]
      generalize hcm : (clearMarks bmi2 bm bm.length _ _ _).1 = cm at hkeep ⊢
      have hcmlen : cm.length = bm.length := hcm ▸ length_clearMarks _ _ _ _ _ _
      refine ⟨by rw [marked_of_setNoCheck hcmlen hn]; simp, fun d hd hW hm => ?_⟩
      simp only [width] at hW
      have hsame : t + inc - ofNat 32 d = t - ofNat 32 (d - inc.toNat) := by bv_omega
      have hplace := h.place_above_lower_bound t (show d - inc.toNat < 64 * bm.length by omega)
      simp only [marked] at hm
      simp only [width] at hplace
      rw [hplace, clibBitmapGet_ring] at hm
      have hbit := hkeep (64 * bm.length - 1 - (d - inc.toNat)) (by omega) (by omega)
      rw [ringBit, ringBit, hcmlen] at hbit
      rw [marked_of_setNoCheck hcmlen hn, hsame, hplace, ← hcmlen, clibBitmapGet_ring, hcmlen, hbit, hm,
        Bool.or_true]
    · next hge =>
      have hinc : (huge bm).width ≤ inc.toNat := by
        rw [← h.size_toNat]; exact le_of_not_gt hge
      refine ⟨?_, fun d hd hW _ => by omega⟩
      rw [h.and_size, width, marked_of_setNoCheck (length_clibBitmapZero bm) hn]
      simp

/-! ### A fresh window -/

/-- A window above 64 is rounded up to a power of two that fits 32 bits. -/
theorem maxLog2_bounds {x : ℕ} (h64 : 64 < x) (h31 : x ≤ 2 ^ 31) : 7 ≤ maxLog2 x ∧ maxLog2 x ≤ 31 := by
  have hne : x ≠ 0 := by omega
  have h6 : 6 ≤ Nat.log2 x := (Nat.le_log2 hne).mpr (by omega)
  have h32 : Nat.log2 x < 32 := (Nat.log2_lt hne).mpr (by omega)
  simp only [maxLog2, minLog2, Nat.shiftLeft_eq, one_mul]
  split
  · next hgt =>
    have : Nat.log2 x ≠ 31 := by intro h; rw [h] at hgt; omega
    omega
  · next hle =>
    have : Nat.log2 x ≠ 6 := by intro h; rw [h] at hle; omega
    omega

/-- A fresh SA has every mark set, in a window of the shape the other operations keep. -/
theorem addAndLock_window (useEsn : Bool) {windowSize : BitVec 32} (hw : windowSize.toNat ≤ 2 ^ 31) :
    let sa := ipsecSaAddAndLock useEsn true windowSize
    sa.window.WF ∧ ∀ d < sa.window.width, sa.marked d = true := by
  intro sa
  by_cases hbig : windowSize > 64
  · obtain ⟨h7, h31⟩ := maxLog2_bounds (show 64 < windowSize.toNat by bv_omega) hw
    obtain ⟨k, hk⟩ := Nat.exists_eq_add_of_le' (show 6 ≤ maxLog2 windowSize.toNat by omega)
    have hpow : (1#32 <<< maxLog2 windowSize.toNat).toNat = 64 * 2 ^ k := by
      have hlt : 2 ^ maxLog2 windowSize.toNat < 2 ^ 32 := Nat.pow_lt_pow_right (by decide) (by omega)
      have hone : (1#32).toNat = 1 := rfl
      rw [toNat_shiftLeft, Nat.shiftLeft_eq, hone, one_mul, Nat.mod_eq_of_lt hlt, hk, pow_add]
      omega
    have hpos := Nat.two_pow_pos k
    have hsmall : 2 ^ k ≤ 2 ^ 25 := Nat.pow_le_pow_right (by decide) (by omega)
    obtain ⟨bm, hset, hlen, hget⟩ := @clibBitmapSetRegion_fresh (64 * 2 ^ k) true (by omega) (by omega)
    have hwin : sa.window = .huge bm := by
      simp only [sa, ipsecSaAddAndLock, hpow, hbig, Bool.true_and, decide_true, if_true, hset, Option.getD_some]
    replace hlen : bm.length = 2 ^ k := by omega
    refine ⟨?_, fun d hd => ?_⟩
    · rw [hwin]; exact ⟨k, by omega, by omega, hlen⟩
    · simp only [marked, hwin, hlen]
      exact (hget _).trans (decide_eq_true (Nat.mod_lt _ (by omega)))
  · have hwin : sa.window = .word (allOnes 64) := by
      simp only [sa, ipsecSaAddAndLock, hbig, decide_false, Bool.and_false, Bool.false_eq_true, if_false]
    refine ⟨by rw [hwin]; trivial, fun d hd => ?_⟩
    simp only [marked, hwin, getLsbD_allOnes]
    exact decide_eq_true (by omega)

end Vpp.Ipsec
