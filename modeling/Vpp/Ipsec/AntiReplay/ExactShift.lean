import Vpp.Ipsec.AntiReplay.Window
import Vpp.Vppinfra.BitmapRanges

/-! What the huge window shift does, read on sequence numbers.

    The mark of any number `s`, also of one below zero or above the 32 bits, is bit `s mod W` of the bitmap (`seenAt`).
    A shift by `inc` leaves the marks of the numbers that stay in the window, clears those of the numbers that come into
    it and sets that of the new highest one; what it returns is the number of those that leave the window unseen. The
    64-bit window that is reported is the last 64 of these marks. -/

namespace Vpp.Ipsec
open Vpp.Vppinfra List BitVec ReplayWindow
open ReplayWindow (huge)

/-- The mark of the number `s`. -/
def seenAt (bm : List Uword) (s : ℤ) : Bool := clibBitmapGet bm (s % ((64 * bm.length : ℕ) : ℤ)).toNat

/-! ### Numbers and places -/

section
variable {bm : List Uword} {s : ℤ} {p : ℕ}

theorem toNat_emod_eq {W : ℕ} (h : s ≡ p [ZMOD W]) : (s % (W : ℤ)).toNat = p % W := by
  have hmod : s % (W : ℤ) = ((p % W : ℕ) : ℤ) := by rw [h, Int.natCast_mod]
  rw [hmod, Int.toNat_natCast]

theorem seenAt_eq_get (h : s ≡ p [ZMOD (64 * bm.length : ℕ)]) : seenAt bm s = clibBitmapGet bm
    (p % (64 * bm.length)) := by
  rw [seenAt, toNat_emod_eq h]

theorem seenAt_congr {s' : ℤ} (h : s ≡ s' [ZMOD (64 * bm.length : ℕ)]) : seenAt bm s = seenAt bm s' := by
  rw [seenAt, seenAt, h]

/-- A sum that left the 32 bits has the same place. -/
theorem modEq_of_add (h : (huge bm).WF) (x y : BitVec 32) :
    ((x + y).toNat : ℤ) ≡ x.toNat + y.toNat [ZMOD (64 * bm.length : ℕ)] := by
  have hadd := h.add_mod_width x y
  rw [← Nat.cast_add]
  exact Int.natCast_modEq_iff.mpr hadd

theorem seenAt_eq_ringBit (h : s ≡ p [ZMOD (64 * bm.length : ℕ)]) : seenAt bm s = ringBit bm p := by
  rw [seenAt_eq_get h, clibBitmapGet_ring, ringBit]

/-- The mark of the number `o` above the lowest of the window is `o` places after the lower bound. -/
theorem modEq_lower_bound {W : ℕ} (seq o : ℕ) (turn : ℤ) (h : s = seq + 1 + o - turn * W) :
    s ≡ (((seq + 1) % W + o : ℕ) : ℤ) [ZMOD W] := by
  rw [h, Nat.cast_add, Int.natCast_mod]
  have hturn : (seq : ℤ) + 1 + o - turn * W ≡ seq + 1 + o [ZMOD W] :=
    (Int.modEq_iff_dvd.mpr ⟨turn, by ring⟩)
  refine hturn.trans (Int.ModEq.add_right _ ?_)
  rw [Nat.cast_add, Nat.cast_one]
  exact (Int.mod_modEq _ _).symm

/-- Two numbers of one window have different places. -/
theorem eq_of_place_eq {W : ℕ} {t : ℤ} (hlow : t - W < s) (hle : s ≤ t) (h : s ≡ t [ZMOD W]) : s = t := by
  obtain ⟨c, hc⟩ := Int.modEq_iff_dvd.mp h
  rcases Int.lt_trichotomy c 0 with hneg | rfl | hpos
  · nlinarith
  · omega
  · nlinarith

end

/-! ### Counting -/

theorem card_filter_Ioc (f : ℤ → Bool) (a : ℤ) (n : ℕ) :
    ((Finset.Ioc a (a + n)).filter fun s => f s = true).card = (range n).countP fun i : ℕ => f (a + 1 + i) := by
  induction n with
  | zero => simp
  | succ n ih =>
    have hsplit : Finset.Ioc a (a + (n + 1 : ℕ)) = insert (a + 1 + n) (Finset.Ioc a (a + n)) := by
      ext s
      simp only [Finset.mem_Ioc, Finset.mem_insert]
      omega
    have hnew : a + 1 + n ∉ (Finset.Ioc a (a + n)).filter fun s => f s = true := by
      simp only [Finset.mem_filter, Finset.mem_Ioc]
      omega
    rw [hsplit, Finset.filter_insert, range_succ, countP_append, ← ih]
    by_cases hf : f (a + 1 + n) = true
    · rw [if_pos hf, Finset.card_insert_of_notMem hnew]
      simp [hf]
    · rw [if_neg hf]
      simp [hf]

/-- A whole turn has the same bits wherever it starts. -/
theorem ringOnes_turn (bm : List Uword) {lb : ℕ} (hlb : lb ≤ 64 * bm.length) :
    ringOnes bm lb (64 * bm.length) = ringOnes bm 0 (64 * bm.length) := by
  obtain ⟨rest, hrest⟩ := Nat.exists_eq_add_of_le hlb
  have hperiodic (p : ℕ) : ringBit bm (lb + rest + p) = ringBit bm p := by
    rw [← hrest, ringBit, ringBit, Nat.mul_add_mod, add_comm, Nat.add_mul_div_left _ _ (by decide), Nat.add_mod_right]
  rw [hrest, add_comm lb rest, ringOnes_add, add_comm rest lb, ringOnes_add bm 0 lb rest, zero_add]
  have hback : ringOnes bm (lb + rest) lb = ringOnes bm 0 lb := by
    simp [ringOnes, hperiodic]
  rw [hback, add_comm]

theorem clibBitmapCountSetBits_eq (bm : List Uword) : clibBitmapCountSetBits bm = ringOnes bm 0 (64 * bm.length) := by
  have htake (m : ℕ) (hm : m ≤ bm.length) : ((bm.take m).map countSetBits).sum = ringOnes bm 0 (64 * m) := by
    induction m with
    | zero => rfl
    | succ m ih =>
      have hlt : m < bm.length := hm
      have hword : ringOnes bm (0 + 64 * m) 64 = countSetBits bm[m] := by
        rw [countSetBits_eq, ringOnes]
        refine countP_congr fun o ho => ?_
        have ho' := mem_range.mp ho
        have hdiv : (0 + 64 * m + o) / 64 = m := by omega
        have hmod : (0 + 64 * m + o) % 64 = o := by omega
        rw [ringBit, hdiv, hmod, Nat.mod_eq_of_lt hlt]
        simp [getD_eq_getElem?_getD, hlt]
      rw [take_succ_eq_append_getElem hlt, map_append, sum_append, ih hlt.le, Nat.mul_add, ringOnes_add,
        mul_one, hword]
      simp
  rw [clibBitmapCountSetBits, ← htake bm.length le_rfl, take_length]

/-! ### The shift -/

section
variable {bm : List Uword} {bmi2 : Bool} {seq inc : BitVec 32}

/-- The new highest number is marked in a bitmap that is otherwise as it was. -/
theorem seenAt_setTop (h : (huge bm).WF) {cm : List Uword} (hlen : cm.length = bm.length) {s : ℤ}
    (hlow : (seq.toNat + inc.toNat : ℤ) - (64 * bm.length : ℕ) < s) (hle : s ≤ seq.toNat + inc.toNat) :
    seenAt (clibBitmapSetNoCheck cm ((seq + inc).toNat % (64 * bm.length)) true) s = true ↔
      s = seq.toNat + inc.toNat ∨ seenAt cm s = true := by
  have hplace := h.add_mod_width seq inc
  simp only [width] at hplace
  have hin : (seq + inc).toNat % (64 * bm.length) / 64 < cm.length := hlen ▸ ring_word_lt (by omega) _
  rw [seenAt, seenAt, length_clibBitmapSetNoCheck, hlen, clibBitmapGet_setNoCheck_true _ hin, hplace,
    Bool.or_eq_true, decide_eq_true_iff]
  refine or_congr_left ⟨fun heq => ?_, fun heq => ?_⟩
  · refine eq_of_place_eq hlow hle ?_
    have hpos := Int.emod_nonneg s (show ((64 * bm.length : ℕ) : ℤ) ≠ 0 by omega)
    have hmod : s % ((64 * bm.length : ℕ) : ℤ) =
      ((seq.toNat + inc.toNat : ℕ) : ℤ) % ((64 * bm.length : ℕ) : ℤ) := by
      rw [← Int.natCast_mod, heq, Int.toNat_of_nonneg hpos]
    rw [Int.ModEq, hmod, Nat.cast_add]
  · rw [heq, ← Nat.cast_add]
    exact (toNat_emod_eq (Int.ModEq.refl _)).symm

/-- By less than a window. -/
theorem hugeWindowShift_seenAt (h : (huge bm).WF) (hinc : inc.toNat < 64 * bm.length)
    (hmask : bmi2 = true ∨ ¬ (inc.toNat = 64 ∧ (seq.toNat + 1) % 64 = 0) ∨
      ringOnes bm ((seq.toNat + 1) % (64 * bm.length)) inc.toNat = 0) :
    let r := hugeWindowShift bmi2 bm seq (huge bm).size inc
    r.1.length = bm.length ∧
      (∀ s : ℤ, (seq.toNat + inc.toNat : ℤ) - (64 * bm.length : ℕ) < s → s ≤ seq.toNat + inc.toNat →
        (seenAt r.1 s = true ↔ s = seq.toNat + inc.toNat ∨ s ≤ seq.toNat ∧ seenAt bm s = true)) ∧
      r.2 = ringOnes bm ((seq.toNat + 1) % (64 * bm.length)) inc.toNat := by
  intro r
  obtain ⟨k, -, -, hk⟩ := id h
  have hlb := h.add_mod_width seq 1
  have hone : (1 : BitVec 32).toNat = 1 := rfl
  simp only [width, hone] at hlb
  have hcleared := clearMarks_cleared_or hk (Nat.mod_lt (seq.toNat + 1) (by omega)) hinc
    (by rwa [Nat.mod_mul_right_mod])
  have hr : r = _ := hugeWindowShift_eq bmi2 h seq inc
  rw [hlb] at hr
  generalize clearMarks bmi2 bm bm.length _ _ inc.toNat = cm at hr hcleared
  rw [hr]
  refine ⟨by rw [length_clibBitmapSetNoCheck, hcleared.length_eq], fun s hlow hle => ?_, hcleared.seen_eq⟩
  rw [seenAt_setTop h hcleared.length_eq hlow hle]
  refine or_congr_right ?_
  by_cases hold : s ≤ seq.toNat
  · -- the number stays in the window: its place is beyond those that are cleared
    obtain ⟨o, ho⟩ := Int.eq_ofNat_of_zero_le (show 0 ≤ s - seq.toNat - 1 + (64 * bm.length : ℕ) by omega)
    have hplace := modEq_lower_bound (W := 64 * bm.length) (s := s) seq.toNat o 1 (by omega)
    have hkept := hcleared.bit o (by omega)
    rw [seenAt_eq_ringBit hplace, seenAt_eq_ringBit (by rw [hcleared.length_eq]; exact hplace), hkept,
      decide_eq_true (by omega), Bool.true_and]
    exact (and_iff_right hold).symm
  · -- the number comes into the window
    obtain ⟨o, ho⟩ := Int.eq_ofNat_of_zero_le (show 0 ≤ s - seq.toNat - 1 by omega)
    have hplace := modEq_lower_bound (W := 64 * bm.length) (s := s) seq.toNat o 0 (by omega)
    have hclear := hcleared.bit o (by omega)
    rw [seenAt_eq_ringBit (by rw [hcleared.length_eq]; exact hplace), hclear, decide_eq_false (by omega)]
    simp [hold]

/-- The numbers that leave the window unseen, by less than a window. -/
theorem card_lost {lb : ℕ} (hlb : lb = (seq.toNat + 1) % (64 * bm.length)) {n : ℕ} (hn : n ≤ 64 * bm.length) :
    ((Finset.Ioc ((seq.toNat : ℤ) - (64 * bm.length : ℕ)) (seq.toNat - (64 * bm.length : ℕ) + n)).filter
      fun s : ℤ => (!(decide (s ≤ seq.toNat) && seenAt bm s)) = true).card = n - ringOnes bm lb n := by
  rw [card_filter_Ioc]
  have hsame : ∀ i ∈ range n, ((!(decide ((seq.toNat : ℤ) - (64 * bm.length : ℕ) + 1 + i ≤ seq.toNat) &&
      seenAt bm (seq.toNat - (64 * bm.length : ℕ) + 1 + i))) = true ↔ (!ringBit bm (lb + i)) = true) := by
    intro i hi
    have hlt := mem_range.mp hi
    rw [decide_eq_true (by omega), Bool.true_and, hlb,
      seenAt_eq_ringBit (modEq_lower_bound seq.toNat i 1 (by omega))]
  rw [countP_congr hsame, ringOnes]
  have htotal := length_eq_countP_add_countP (fun o => ringBit bm (lb + o)) (l := range n)
  rw [length_range] at htotal
  have hnot : (range n).countP (fun a => decide ¬ringBit bm (lb + a) = true) =
      (range n).countP fun i => !ringBit bm (lb + i) := countP_congr fun i _ => by simp
  omega

/-- The marks that are to be cleared are those of the numbers that leave the window. -/
theorem ringOnes_eq_zero_iff {n : ℕ} (hn : n ≤ 64 * bm.length) :
    ringOnes bm ((seq.toNat + 1) % (64 * bm.length)) n = 0 ↔
      ∀ s ∈ Finset.Ioc ((seq.toNat : ℤ) - (64 * bm.length : ℕ)) (seq.toNat - (64 * bm.length : ℕ) + n),
        seenAt bm s = false := by
  have hlost := @card_lost bm seq _ rfl n hn
  have hle := ringOnes_le bm ((seq.toNat + 1) % (64 * bm.length)) n
  have hcard : (Finset.Ioc ((seq.toNat : ℤ) - (64 * bm.length : ℕ))
    (seq.toNat - (64 * bm.length : ℕ) + n)).card = n := by
    simp
  have hall := hcard ▸ Finset.card_filter_eq_iff (s := Finset.Ioc ((seq.toNat : ℤ) - (64 * bm.length : ℕ))
    (seq.toNat - (64 * bm.length : ℕ) + n)) (p := fun s => (!(decide (s ≤ seq.toNat) && seenAt bm s)) = true)
  refine Iff.trans ?_ (hall.trans (forall₂_congr fun s hs => ?_))
  · omega
  have hs := Finset.mem_Ioc.mp hs
  simp [show s ≤ seq.toNat by omega]

/-- Of the numbers above the highest one none has been seen. -/
theorem card_lost_above {n : ℕ} (hn : 64 * bm.length ≤ n) :
    ((Finset.Ioc ((seq.toNat : ℤ) - (64 * bm.length : ℕ)) (seq.toNat - (64 * bm.length : ℕ) + n)).filter
      fun s : ℤ => (!(decide (s ≤ seq.toNat) && seenAt bm s)) = true).card =
      ((Finset.Ioc ((seq.toNat : ℤ) - (64 * bm.length : ℕ))
        (seq.toNat - (64 * bm.length : ℕ) + (64 * bm.length : ℕ))).filter
        fun s : ℤ => (!(decide (s ≤ seq.toNat) && seenAt bm s)) = true).card + (n - 64 * bm.length) := by
  obtain ⟨m, rfl⟩ := Nat.exists_eq_add_of_le hn
  rw [card_filter_Ioc, card_filter_Ioc, range_add, countP_append, countP_map, Nat.add_sub_cancel_left]
  congr 1
  have hall : (range m).countP
    ((fun i : ℕ => !(decide ((seq.toNat : ℤ) - (64 * bm.length : ℕ) + 1 + i ≤ seq.toNat) &&
      seenAt bm (seq.toNat - (64 * bm.length : ℕ) + 1 + i))) ∘ (64 * bm.length + ·)) = (range m).length := by
    refine countP_eq_length.mpr fun i _ => ?_
    have hgt : ¬ (seq.toNat : ℤ) - (64 * bm.length : ℕ) + 1 + ((64 * bm.length + i : ℕ) : ℤ) ≤
      seq.toNat := by omega
    simp only [Function.comp, decide_eq_false hgt, Bool.false_and, Bool.not_false]
  rw [hall, length_range]

end

/-! ### The 64-bit window -/

theorem getLsbD_getMultipleNoCheck {bmi2 : Bool} {bm : List Uword} {i n j : ℕ} (hn : n < 64)
    (hfit : i % 64 + n ≤ 64) :
    (clibBitmapGetMultipleNoCheck bmi2 bm i n).getLsbD j = (decide (j < n) && clibBitmapGet bm (i + j)) := by
  rw [clibBitmapGetMultipleNoCheck, getLsbD_and, getLsbD_pow2Mask hn.le (.inr hn.ne), getLsbD_ushiftRight,
    Bool.and_comm]
  by_cases hj : j < n
  · have hword : (i + j) / 64 = i / 64 := by omega
    have hbit : (i + j) % 64 = i % 64 + j := by omega
    rw [clibBitmapGet_eq, hword, hbit]
  · simp [hj]

/-- Bit 63 is the highest number, bit 0 the one 63 below it. -/
theorem get64bWindow_seenAt (bmi2 : Bool) {sa : IpsecSa} {bm : List Uword} (hwin : sa.window = .huge bm)
    (h : (huge bm).WF) {j : ℕ} (hj : j < 64) :
    (ipsecSaAntiReplayGet64bWindow bmi2 sa).getLsbD j = seenAt bm (sa.seq.toNat - 63 + j) := by
  have hb := h.width_bounds
  have hsize := h.size_toNat
  have hindex := h.and_size sa.seq
  obtain ⟨k, hk1, -, hk⟩ := id h
  have h128 : 64 * 2 ≤ 64 * bm.length := by
    rw [hk]
    exact Nat.mul_le_mul_left 64 (by simpa using Nat.pow_le_pow_right (n := 2) (by decide) hk1)
  simp only [width] at hb hsize hindex
  simp only [ipsecSaAntiReplayGet64bWindow, hwin]
  generalize htl : sa.seq &&& ((huge bm).size - 1) = tl at hindex
  generalize (huge bm).size = size at hsize
  have hplace : (sa.seq.toNat : ℤ) ≡ (tl.toNat : ℤ) [ZMOD (64 * bm.length : ℕ)] := by
    rw [hindex, Int.natCast_mod]
    exact (Int.mod_modEq _ _).symm
  have htl64 : tl.toNat < 64 * bm.length := hindex ▸ Nat.mod_lt _ (by omega)
  split
  · next hge =>
    have hsub : (tl - 63).toNat = tl.toNat - 63 := by bv_omega
    have hge' : 63 ≤ tl.toNat := hge
    rw [hsub, getLsbD_getMultiple _ _ le_rfl, decide_eq_true hj, Bool.true_and,
      seenAt_eq_get (p := tl.toNat - 63 + j), Nat.mod_eq_of_lt (by omega)]
    have hcast : ((tl.toNat - 63 + j : ℕ) : ℤ) = tl.toNat - 63 + j := by omega
    rw [hcast]
    exact (hplace.sub_right 63).add_right j
  · next hlt =>
    have hlt' : tl.toNat < 63 := Nat.lt_of_not_le hlt
    have h1 : (tl + 1).toNat = tl.toNat + 1 := by bv_omega
    have h2 : (63 - tl).toNat = 63 - tl.toNat := by bv_omega
    have h3 : (size - 63 + tl).toNat = 64 * bm.length - 63 + tl.toNat := by bv_omega
    rw [h1, h2, h3, getLsbD_or, getLsbD_shiftLeft, getLsbD_getMultipleNoCheck (by omega) (by omega),
      getLsbD_getMultipleNoCheck (by omega) (by omega)]
    by_cases hhigh : j < 63 - tl.toNat
    · rw [seenAt_eq_get (p := 64 * bm.length - 63 + tl.toNat + j), Nat.mod_eq_of_lt (by omega)]
      · simp [hhigh]
      · have hcast : ((64 * bm.length - 63 + tl.toNat + j : ℕ) : ℤ) = tl.toNat - 63 + j +
          (64 * bm.length : ℕ) := by omega
        rw [hcast]
        exact ((hplace.sub_right 63).add_right j).trans (Int.modEq_iff_dvd.mpr ⟨1, by ring⟩)
    · rw [seenAt_eq_get (p := j - (63 - tl.toNat)), Nat.mod_eq_of_lt (by omega)]
      · simp [hhigh, hj, show j - (63 - tl.toNat) < tl.toNat + 1 by omega]
      · have hcast : ((j - (63 - tl.toNat) : ℕ) : ℤ) = tl.toNat - 63 + j := by omega
        rw [hcast]
        exact (hplace.sub_right 63).add_right j

/-! ### All of it -/

section
variable {bmi2 : Bool} {sa : IpsecSa} {bm : List Uword} {inc : BitVec 32}

section

variable (hwin : sa.window = .huge bm)
include hwin

section

variable (h : (huge bm).WF)
include h

theorem windowShift_of_lt (hinc : inc.toNat < 64 * bm.length) :
    ipsecSaAntiReplayWindowShift bmi2 sa inc =
      (.huge (hugeWindowShift bmi2 bm sa.seq (huge bm).size inc).1,
        inc - BitVec.ofNat 32 (hugeWindowShift bmi2 bm sa.seq (huge bm).size inc).2) := by
  have hlt : inc < (huge bm).size := by
    rw [lt_def, h.size_toNat]
    exact hinc
  simp only [ipsecSaAntiReplayWindowShift, hwin, hlt, if_true]

theorem windowShift_of_ge (hinc : 64 * bm.length ≤ inc.toNat) :
    ipsecSaAntiReplayWindowShift bmi2 sa inc =
      (.huge (clibBitmapSetNoCheck (clibBitmapZero bm) ((sa.seq + inc).toNat % (64 * bm.length)) true),
        (huge bm).size - BitVec.ofNat 32 (clibBitmapCountSetBits bm) + (inc - (huge bm).size)) := by
  have hge : ¬ inc < (huge bm).size := by
    rw [lt_def, h.size_toNat]
    exact not_lt.mpr hinc
  simp only [ipsecSaAntiReplayWindowShift, hwin, hge, if_false, h.and_size]
  rfl

section
variable (hmask : bmi2 = true ∨ ¬ (inc.toNat = 64 ∧ (sa.seq.toNat + 1) % 64 = 0) ∨
  ringOnes bm ((sa.seq.toNat + 1) % (64 * bm.length)) inc.toNat = 0)
include hmask

/-- The marks after a shift of a huge window, unless a build without BMI2 asks `pow2_mask` for all 64 bits of a word. -/
theorem windowShift_huge_marks :
    ∃ bm', (ipsecSaAntiReplayWindowShift bmi2 sa inc).1 = .huge bm' ∧ bm'.length = bm.length ∧
      ∀ s : ℤ, (sa.seq.toNat + inc.toNat : ℤ) - (64 * bm.length : ℕ) < s → s ≤ sa.seq.toNat + inc.toNat →
        (seenAt bm' s = true ↔ s = sa.seq.toNat + inc.toNat ∨ s ≤ sa.seq.toNat ∧ seenAt bm s = true) := by
  rcases lt_or_ge inc.toNat (64 * bm.length) with hinc | hinc
  · obtain ⟨hlen, hmarks, -⟩ := hugeWindowShift_seenAt h hinc hmask
    exact ⟨_, by rw [windowShift_of_lt hwin h hinc], hlen, hmarks⟩
  · refine ⟨_, by rw [windowShift_of_ge hwin h hinc], by simp, fun s hlow hle => ?_⟩
    rw [seenAt_setTop h (length_clibBitmapZero bm) hlow hle]
    have hzero : seenAt (clibBitmapZero bm) s = false := clibBitmapGet_zero bm _
    have hgone : ¬ s ≤ sa.seq.toNat := by omega
    simp [hzero, hgone]

/-- And the number of those that leave it unseen. -/
theorem windowShift_huge_lost :
    (ipsecSaAntiReplayWindowShift bmi2 sa inc).2.toNat =
      ((Finset.Ioc ((sa.seq.toNat : ℤ) - (64 * bm.length : ℕ))
        (sa.seq.toNat - (64 * bm.length : ℕ) + inc.toNat)).filter
        fun s : ℤ => (!(decide (s ≤ sa.seq.toNat) && seenAt bm s)) = true).card := by
  have hb := h.width_bounds
  have hsize := h.size_toNat
  simp only [width] at hb hsize
  rcases lt_or_ge inc.toNat (64 * bm.length) with hinc | hinc
  · obtain ⟨-, -, hseen⟩ := hugeWindowShift_seenAt h hinc hmask
    have hle := ringOnes_le bm ((sa.seq.toNat + 1) % (64 * bm.length)) inc.toNat
    rw [windowShift_of_lt hwin h hinc, card_lost rfl hinc.le, hseen]
    bv_omega
  · have hle := ringOnes_le bm 0 (64 * bm.length)
    rw [windowShift_of_ge hwin h hinc, card_lost_above hinc, card_lost rfl le_rfl,
      ringOnes_turn bm (Nat.mod_lt _ (by omega)).le, clibBitmapCountSetBits_eq]
    bv_omega

end

end

end

/-- By 64 from the start of a word, a build without BMI2 counts none of the marks as seen. -/
theorem windowShift_huge_skips (hwin : sa.window = .huge bm) (h : (huge bm).WF) (h64 : inc.toNat = 64)
    (hlow : (sa.seq.toNat + 1) % 64 = 0) (hin : 64 < 64 * bm.length) :
    (ipsecSaAntiReplayWindowShift false sa inc).2.toNat = 64 := by
  have hlb := h.add_mod_width sa.seq 1
  have hone : (1 : BitVec 32).toNat = 1 := rfl
  simp only [width, hone] at hlb
  rw [windowShift_of_lt hwin h (by omega), hugeWindowShift_eq false h, hlb, h64,
    clearMarks_skips (by rwa [Nat.mod_mul_right_mod])]
  bv_omega

end

/-- A shift of a huge window does what it is for, unless a build without BMI2 asks `pow2_mask` for all 64 bits of a
    word, and some number that leaves the window was marked in it. -/
theorem windowShift_huge_exact_iff (bmi2 : Bool) {sa : IpsecSa} {bm : List Uword} {k : ℕ}
    (hwin : sa.window = .huge bm)
    (hk : bm.length = 2 ^ k) (hk1 : 1 ≤ k) (hk25 : k ≤ 25) (inc : BitVec 32) :
    let W : ℤ := (64 * bm.length : ℕ)
    let seq : ℤ := sa.seq.toNat
    let top : ℤ := seq + inc.toNat
    (∃ bm', (ipsecSaAntiReplayWindowShift bmi2 sa inc).1 = .huge bm' ∧ bm'.length = bm.length ∧
      (∀ s, top - W < s → s ≤ top → (seenAt bm' s = true ↔ s = top ∨ s ≤ seq ∧ seenAt bm s = true)) ∧
      (ipsecSaAntiReplayWindowShift bmi2 sa inc).2.toNat =
        ((Finset.Ioc (seq - W) (top - W)).filter fun s => ¬ (s ≤ seq ∧ seenAt bm s = true)).card ∧
      ∀ j < 64, (ipsecSaAntiReplayGet64bWindow bmi2 { sa with seq := sa.seq + inc, window := .huge bm' }).getLsbD j =
        seenAt bm' (top - 63 + j)) ↔
      bmi2 = true ∨ ¬ (inc.toNat = 64 ∧ (sa.seq.toNat + 1) % 64 = 0) ∨
        ∀ s ∈ Finset.Ioc (seq - W) (top - W), seenAt bm s = false := by
  intro W seq top
  have h : (huge bm).WF := ⟨k, hk1, hk25, hk⟩
  have h128 : 64 * 2 ≤ 64 * bm.length := by
    rw [hk]
    exact Nat.mul_le_mul_left 64 (by simpa using Nat.pow_le_pow_right (n := 2) (by decide) hk1)
  have hend : top - W = seq - W + inc.toNat := by ring
  constructor
  · rintro ⟨bm', -, -, -, hlost, -⟩
    by_contra! ⟨hbmi2, ⟨h64, hlow⟩, s, hs, hseen⟩
    obtain rfl : bmi2 = false := by simpa using hbmi2
    -- all of the 64 numbers count as lost, though one of them was seen
    rw [windowShift_huge_skips hwin h h64 hlow (by omega)] at hlost
    have hcard : (Finset.Ioc (seq - W) (top - W)).card = 64 := by
      rw [hend, h64]
      simp
    have hall := Finset.card_filter_eq_iff.mp (hlost.symm.trans hcard.symm) s hs
    have hs' := Finset.mem_Ioc.mp hs
    exact hall ⟨by omega, by simpa using hseen⟩
  · intro hmask
    have hmask' : bmi2 = true ∨ ¬ (inc.toNat = 64 ∧ (sa.seq.toNat + 1) % 64 = 0) ∨
        ringOnes bm ((sa.seq.toNat + 1) % (64 * bm.length)) inc.toNat = 0 := by
      rw [hend] at hmask
      by_cases h64 : inc.toNat = 64
      · rwa [ringOnes_eq_zero_iff (by omega)]
      · exact .inr (.inl fun hbad => h64 hbad.1)
    obtain ⟨bm', hshift, hlen, hmarks⟩ := windowShift_huge_marks hwin h hmask'
    refine ⟨bm', hshift, hlen, hmarks, ?_, fun j hj => ?_⟩
    · rw [windowShift_huge_lost hwin h hmask', hend]
      congr 1
      refine Finset.filter_congr fun s _ => ?_
      by_cases hs : s ≤ seq <;> simp [hs, seq]
    · rw [get64bWindow_seenAt bmi2 rfl ⟨k, hk1, hk25, hlen.trans hk⟩ hj]
      refine seenAt_congr (((Int.ModEq.sub_right 63 ?_)).add_right j)
      rw [hlen]
      exact modEq_of_add h sa.seq inc

/-- Window 128, at 63, by 64 without BMI2: the numbers -64 to -1 leave it, and none of them was marked. -/
theorem windowShift_huge_exact_128 : ∃ bm',
    (ipsecSaAntiReplayWindowShift false ⟨63, 0, .huge [0xFF, 0], false, true⟩ 64).1 = .huge bm' ∧
      (ipsecSaAntiReplayWindowShift false ⟨63, 0, .huge [0xFF, 0], false, true⟩ 64).2.toNat =
        ((Finset.Ioc (-65 : ℤ) (-1)).filter fun s => ¬ (s ≤ 63 ∧ seenAt [0xFF, 0] s = true)).card := by
  obtain ⟨bm', hshift, -, -, hlost, -⟩ :=
    (@windowShift_huge_exact_iff false ⟨63, 0, .huge [0xFF, 0], false, true⟩
    [0xFF, 0] 1 rfl rfl le_rfl (by decide) 64).mpr (.inr (.inr (by decide +kernel)))
  exact ⟨bm', hshift, hlost⟩

/-- Without BMI2, by 64 from the start of a word: that word is neither cleared nor counted. Number 100 has come into the
    window unseen and is marked; all of the 64 numbers that left it had been seen. -/
theorem windowShift_leaves_stale_word :
    ∃ bm', ipsecSaAntiReplayWindowShift false ⟨63, 0, .huge [0, allOnes 64], false, true⟩ 64 = (.huge bm', 64) ∧
      seenAt bm' 100 = true ∧
      ∀ s ∈ Finset.Ioc (63 - 128 : ℤ) (63 + 64 - 128), seenAt [0, allOnes 64] s = true := by
  refine ⟨[0, allOnes 64], ?_, ?_, ?_⟩ <;> decide +kernel

end Vpp.Ipsec
