import Vpp.Ipsec.AntiReplay.Sa

/-! The bits that the huge window shift clears, how many of them were set, and which marks it leaves alone.

    The huge window is a ring of `64 * n` bits. The shift clears `inc` bits from `lowerBound` on, in up
    to three pieces: the rest of the first word, some whole words, the start of the last word. A bit is
    named by its distance `o` from `lowerBound` around the ring.

        word:    b0        b0+1 … b0+f     b0+f+1            b0+n = b0
              ···|xxxxx | xxxxx … xxxxx | xxx|······ … ····· | ···|
                 lowerBound                   lowerBound + inc     lowerBound + 64 * n

    Each piece clears one run of bits within a word. `Cleared` says what has been done after some of them: the first
    `done` bits from the old lower bound on are clear, the others are as they were, and `seen` of the cleared ones had
    been set. Every piece takes `done` on by the length of its run (`Cleared.word`). Every bit with `inc ≤ o` keeps
    its value (`clearMarks_keeps`). -/

namespace Vpp.Ipsec
open Vpp.Vppinfra List BitVec

/-- Clearing a mask in one word leaves every bit outside the mask as it was. -/
theorem getLsbD_clear_mask (window : List Uword) (b : ℕ) (mask : Uword) {m i : ℕ}
    (h : m = b → mask.getLsbD i = false) :
    ((window.set b (window.getD b 0 &&& ~~~mask)).getD m 0).getLsbD i =
      (window.getD m 0).getLsbD i := by
  by_cases hm : m = b
  · subst hm
    by_cases hlt : m < window.length
    · by_cases hi : i < 64
      · have hclear := h rfl
        simp only [getLsbD_eq_getElem hi] at hclear
        simp [getD_eq_getElem?_getD, hlt, hclear, hi]
      · rw [getLsbD_of_ge _ _ (by omega), getLsbD_of_ge _ _ (by omega)]
    · simp [getD_eq_getElem?_getD, hlt]
  · simp [getD_eq_getElem?_getD, Ne.symm hm]

theorem and_blocks {n k : ℕ} (hn : n = 2 ^ k) (x : ℕ) : x &&& (n - 1) = x % n := by
  rw [hn, Nat.and_two_pow_sub_one_eq_mod]

/-- Two blocks less than one turn of the ring apart are different blocks. -/
theorem ring_block_ne {n a b : ℕ} (hlt : a < b) (hle : b < a + n) : a % n ≠ b % n := by
  intro h
  obtain ⟨c, hc⟩ := (Nat.modEq_iff_dvd' hlt.le).mp h
  rcases c with _ | c
  · omega
  · have : n ≤ n * (c + 1) := Nat.le_mul_of_pos_right n (by omega)
    omega

/-- Bit `p` of a ring of words, whichever turn `p` is on. -/
def ringBit (window : List Uword) (p : ℕ) : Bool := (window.getD (p / 64 % window.length) 0).getLsbD (p % 64)

/-- The number of set bits among `len` from `p` on. -/
def ringOnes (window : List Uword) (p len : ℕ) : ℕ := (range len).countP fun o => ringBit window (p + o)

theorem ringOnes_add (window : List Uword) (p a b : ℕ) :
    ringOnes window p (a + b) = ringOnes window p a + ringOnes window (p + a) b := by
  simp [ringOnes, range_add, countP_append, countP_map, Function.comp_def, add_assoc]

theorem ringOnes_le (window : List Uword) (p len : ℕ) : ringOnes window p len ≤ len := by
  simpa [ringOnes] using countP_le_length (p := fun o => ringBit window (p + o)) (l := range len)

/-- A run of bits of one word, counted from its start. -/
theorem countP_run {f : ℕ → Bool} {start len : ℕ} (h : start + len ≤ 64) :
    (range 64).countP (fun i => f i && decide (start ≤ i ∧ i < start + len)) =
      (range len).countP fun o => f (start + o) := by
  obtain ⟨rest, hrest⟩ := Nat.exists_eq_add_of_le h
  rw [hrest, range_add, range_add, countP_append, countP_append, countP_map, countP_map]
  have hbefore : (range start).countP (fun i => f i && decide (start ≤ i ∧ i < start + len)) = 0 := by
    refine countP_eq_zero.mpr fun i hi => ?_
    have hlt := mem_range.mp hi
    simp [show ¬ start ≤ i by omega]
  have hafter : (range rest).countP
      ((fun i => f i && decide (start ≤ i ∧ i < start + len)) ∘ (start + len + ·)) = 0 := by
    refine countP_eq_zero.mpr fun i _ => ?_
    simp
  rw [hbefore, hafter, zero_add, add_zero]
  refine countP_congr fun o ho => ?_
  have hlt := mem_range.mp ho
  simp [hlt]

/-- Within one turn of the ring, a run of bits of one word is a run of places. -/
theorem run_iff {n lb done len o : ℕ} (hfit : (lb + done) % 64 + len ≤ 64) (hdone : done + len ≤ 64 * n)
    (ho : o < 64 * n) :
    ((lb + o) / 64 % n = (lb + done) / 64 % n ∧ (lb + done) % 64 ≤ (lb + o) % 64 ∧
      (lb + o) % 64 < (lb + done) % 64 + len) ↔ done ≤ o ∧ o < done + len := by
  constructor
  · rintro ⟨hblock, hlow, hhigh⟩
    have hsame : (lb + o) / 64 = (lb + done) / 64 := by
      rcases Nat.lt_trichotomy ((lb + o) / 64) ((lb + done) / 64) with hlt | heq | hgt
      · refine absurd hblock (ring_block_ne hlt ?_)
        omega
      · exact heq
      · refine absurd hblock.symm (ring_block_ne hgt ?_)
        omega
    omega
  · rintro ⟨hlow, hhigh⟩
    have hsame : (lb + o) / 64 = (lb + done) / 64 := by omega
    exact ⟨by rw [hsame], by omega, by omega⟩

/-- After `done` bits from `lb` on. -/
structure Cleared (window₀ : List Uword) (lb done : ℕ) (window : List Uword) (seen : ℕ) : Prop where
  length_eq : window.length = window₀.length
  bit : ∀ o < 64 * window₀.length, ringBit window (lb + o) = (decide (done ≤ o) && ringBit window₀ (lb + o))
  seen_eq : seen = ringOnes window₀ lb done

namespace Cleared
variable {window₀ window : List Uword} {lb done seen : ℕ}

theorem start (window₀ : List Uword) (lb : ℕ) : Cleared window₀ lb 0 window₀ 0 :=
  ⟨rfl, fun o _ => by simp, rfl⟩

/-- A run of `len` bits, all within one word. -/
theorem word (h : Cleared window₀ lb done window seen) {b : ℕ} (len : ℕ) (mask : Uword)
    (hb : b = (lb + done) / 64 % window₀.length) (hfit : (lb + done) % 64 + len ≤ 64)
    (hdone : done + len ≤ 64 * window₀.length) (hpos : 0 < window₀.length)
    (hmask : ∀ i < 64, mask.getLsbD i = decide ((lb + done) % 64 ≤ i ∧ i < (lb + done) % 64 + len)) :
    Cleared window₀ lb (done + len) (window.set b (window.getD b 0 &&& ~~~mask))
      (seen + countSetBits (window.getD b 0 &&& mask)) where
  length_eq := by rw [length_set, h.length_eq]
  bit o ho := by
    have hrun := run_iff hfit hdone ho
    have hold := h.bit o ho
    have hi : (lb + o) % 64 < 64 := Nat.mod_lt _ (by decide)
    rw [ringBit, h.length_eq] at hold
    rw [ringBit, length_set, h.length_eq]
    by_cases hin : done ≤ o ∧ o < done + len
    · obtain ⟨hblock, hlow, hhigh⟩ := hrun.mpr hin
      have hset : mask.getLsbD ((lb + o) % 64) = true := by
        rw [hmask _ hi]
        exact decide_eq_true ⟨hlow, hhigh⟩
      have hlt : b < window.length := by
        rw [hb, h.length_eq]
        exact Nat.mod_lt _ hpos
      rw [hblock, ← hb, decide_eq_false (by omega), Bool.false_and]
      simp [getD_eq_getElem?_getD, hlt, hset]
    · rw [getLsbD_clear_mask, hold]
      · congr 1
        exact decide_eq_decide.mpr (by omega)
      · intro hblock
        rw [hmask _ hi]
        exact decide_eq_false fun hbits => hin (hrun.mp ⟨hblock.trans hb, hbits⟩)
  seen_eq := by
    rw [ringOnes_add, ← h.seen_eq, countSetBits_eq]
    congr 1
    have hbits : ∀ i ∈ range 64, ((window.getD b 0 &&& mask).getLsbD i = true ↔
        ((window.getD b 0).getLsbD i && decide ((lb + done) % 64 ≤ i ∧ i < (lb + done) % 64 + len)) = true) := by
      intro i hi
      rw [getLsbD_and, hmask i (mem_range.mp hi)]
    rw [countP_congr hbits, countP_run hfit, ringOnes]
    refine countP_congr fun o ho => ?_
    have hlt := mem_range.mp ho
    have hkept := h.bit (done + o) (by omega)
    rw [decide_eq_true (by omega), Bool.true_and, ← add_assoc] at hkept
    have hblock : (lb + done + o) / 64 = (lb + done) / 64 := by omega
    have hbit : (lb + done + o) % 64 = (lb + done) % 64 + o := by omega
    rw [← hkept, ringBit, h.length_eq, hblock, hbit, hb]

end Cleared

/-- The whole words, one at a time. -/
def clearWords (nBlocks : ℕ) : ℕ → ℕ → List Uword → ℕ → List Uword × ℕ × ℕ
  | 0, iBlock, window, seen => (window, iBlock, seen)
  | fullWords + 1, iBlock, window, seen =>
    clearWords nBlocks fullWords ((iBlock + 1) &&& (nBlocks - 1)) (window.set iBlock 0)
      (seen + countSetBits (window.getD iBlock 0))

theorem getD_foldl_set {blocks : List ℕ} {i : ℕ} (hi : i ∉ blocks) (window : List Uword) :
    (blocks.foldl (fun window i => window.set i 0) window).getD i 0 = window.getD i 0 := by
  induction blocks generalizing window with
  | nil => rfl
  | cons j blocks ih =>
    obtain ⟨hne, hi⟩ : i ≠ j ∧ i ∉ blocks := by simpa using hi
    rw [foldl_cons, ih hi]
    simp [getD_eq_getElem?_getD, getElem?_set_ne (Ne.symm hne)]

/-- As long as they are different words, some of them can be counted before they are cleared. -/
theorem clearWords_add {k n iBlock : ℕ} (hn : n = 2 ^ k) (hi : iBlock < n) (window : List Uword) (seen m : ℕ)
    (hm : m ≤ n) (fullWords : ℕ) :
    let blocks := (range m).map fun i => (iBlock + i) % n
    clearWords n (fullWords + m) iBlock window seen = clearWords n fullWords ((iBlock + m) % n)
      (blocks.foldl (fun window i => window.set i 0) window)
      (seen + (blocks.map fun i => countSetBits (window.getD i 0)).sum) := by
  induction m generalizing fullWords with
  | zero => simp [Nat.mod_eq_of_lt hi]
  | succ m ih =>
    have hnew : (iBlock + m) % n ∉ (range m).map fun i => (iBlock + i) % n := by
      rw [mem_map]
      rintro ⟨j, hj, heq⟩
      have hj := mem_range.mp hj
      have := Nat.ModEq.add_left_cancel' iBlock (show iBlock + j ≡ iBlock + m [MOD n] from heq)
      rw [Nat.ModEq, Nat.mod_eq_of_lt (by omega), Nat.mod_eq_of_lt (by omega)] at this
      omega
    have hnext : ((iBlock + m) % n + 1) &&& (n - 1) = (iBlock + (m + 1)) % n := by
      rw [hn, Nat.and_two_pow_sub_one_eq_mod, Nat.mod_add_mod, add_assoc]
    rw [show fullWords + (m + 1) = fullWords + 1 + m by omega, ih (by omega), clearWords, getD_foldl_set hnew, hnext]
    simp [range_succ, add_assoc]

/-- Eight at once or one at a time. -/
theorem clearFullWords_eq {k n : ℕ} (hn : n = 2 ^ k) (fullWords iBlock : ℕ) (window : List Uword) (seen : ℕ)
    (hi : iBlock < n) (hfull : fullWords ≤ n) :
    clearFullWords n fullWords iBlock window seen = clearWords n fullWords iBlock window seen := by
  have hmask (x : ℕ) : x &&& (n - 1) = x % n := by rw [hn, Nat.and_two_pow_sub_one_eq_mod]
  fun_induction clearFullWords n fullWords iBlock window seen with
  | case1 fullWords iBlock window seen blocks ih =>
    have hblocks : blocks = (range 8).map fun i => (iBlock + i) % n := by
      simp [blocks, hmask, range_succ, Nat.mod_eq_of_lt hi]
    rw [ih (hmask _ ▸ Nat.mod_lt _ (by omega)) (by omega), clearWords_add hn hi window seen 8 (by omega),
      hmask, hblocks]
  | case2 fullWords iBlock window seen _ ih =>
    rw [ih (hmask _ ▸ Nat.mod_lt _ (by omega)) (by omega), clearWords]
  | case3 iBlock window seen => rfl

/-- The loop over whole words. -/
theorem clearWords_cleared {window₀ : List Uword} {k lb : ℕ} (hk : window₀.length = 2 ^ k) (fullWords : ℕ) :
    ∀ {done : ℕ} {window : List Uword} {seen : ℕ}, Cleared window₀ lb done window seen →
      (lb + done) % 64 = 0 →
      done + 64 * fullWords ≤ 64 * window₀.length →
      ∃ window' seen', clearWords window₀.length fullWords ((lb + done) / 64 % window₀.length) window seen =
          (window', (lb + done + 64 * fullWords) / 64 % window₀.length, seen') ∧
        Cleared window₀ lb (done + 64 * fullWords) window' seen' := by
  have hpos : 0 < window₀.length := hk ▸ Nat.two_pow_pos k
  induction fullWords with
  | zero => intro done window seen h _ _; exact ⟨window, seen, rfl, h⟩
  | succ f ih =>
    intro done window seen h halign hfits
    have hword := h.word 64 (allOnes 64) rfl (by omega) (by omega) hpos fun i hi => by
      rw [getLsbD_allOnes]
      exact decide_eq_decide.mpr (by omega)
    have hzero : window.getD ((lb + done) / 64 % window₀.length) 0 &&& ~~~allOnes 64 = 0 := by simp
    have hall (x : Uword) : x &&& allOnes 64 = x := and_allOnes
    rw [hzero, hall] at hword
    obtain ⟨window', seen', heq, hcleared⟩ := ih hword (by omega) (by omega)
    refine ⟨window', seen', ?_, ?_⟩
    · have hnext : ((lb + done) / 64 % window₀.length + 1) &&& (window₀.length - 1) =
          (lb + (done + 64)) / 64 % window₀.length := by
        rw [and_blocks hk, Nat.mod_add_mod]
        congr 1
        omega
      rw [clearWords, hnext, heq]
      congr 3
      omega
    · have hlen : done + 64 * (f + 1) = done + 64 + 64 * f := by omega
      rw [hlen]
      exact hcleared

theorem length_clearFullWords (n fullWords iBlock : ℕ) (window : List Uword) (seen : ℕ) :
    (clearFullWords n fullWords iBlock window seen).1.length = window.length := by
  fun_induction clearFullWords n fullWords iBlock window seen with
  | case1 fullWords iBlock window seen blocks ih =>
    rw [ih]
    simp [blocks]
  | case2 fullWords iBlock window seen _ ih => rw [ih, length_set]
  | case3 iBlock window seen => rfl

theorem length_clearMarks (bmi2 : Bool) (window : List Uword) (n lb nlb inc : ℕ) :
    (clearMarks bmi2 window n lb nlb inc).1.length = window.length := by
  simp only [clearMarks]
  split
  · rw [length_set]
  · rw [length_set, length_clearFullWords, length_set]

variable {window : List Uword}

/-- The mask of a build without BMI2 has no bit where it should have all 64 of them. -/
theorem clearMarks_skips {lb : ℕ} (hlow : lb % 64 = 0) (n nlb : ℕ) :
    clearMarks false window n lb nlb 64 = (window, 0) := by
  have h63 : lb &&& 63 = 0 := (Nat.and_two_pow_sub_one_eq_mod lb 6).trans hlow
  have hmask : pow2Mask false 64 = 0 := by decide
  have hzero : (0 : Uword) <<< (lb &&& 63) = 0 := BitVec.zero_shiftLeft _
  have hall (x : Uword) : x &&& ~~~(0 : Uword) = x := and_allOnes
  have hset : window.set (lb >>> 6) (window.getD (lb >>> 6) 0) = window := by
    rcases lt_or_ge (lb >>> 6) window.length with hlt | hge
    · simp [getD_eq_getElem?_getD, hlt]
    · exact set_eq_of_length_le hge
  rw [clearMarks, if_pos (by omega), hmask]
  simp only [hzero, hall, hset]
  exact congrArg (window, countSetBits ·) BitVec.and_zero

section
variable {bmi2 : Bool} {k lb inc : ℕ} (hk : window.length = 2 ^ k) (hlb : lb < 64 * window.length)
include hk hlb

/-- All pieces together: the `inc` bits from `lb` on are cleared, and counted. -/
theorem clearMarks_cleared (hinc : inc < 64 * window.length)
    (hmask : bmi2 = true ∨ ¬ (inc = 64 ∧ lb % 64 = 0)) :
    Cleared window lb inc (clearMarks bmi2 window window.length lb ((lb + inc) % (64 * window.length)) inc).1
      (clearMarks bmi2 window window.length lb ((lb + inc) % (64 * window.length)) inc).2 := by
  have hend : (lb + inc) % (64 * window.length) % 64 = (lb + inc) % 64 := Nat.mod_mul_right_mod _ _ _
  have hpos : 0 < window.length := by omega
  have h63 : ∀ x, x &&& 63 = x % 64 := fun x => Nat.and_two_pow_sub_one_eq_mod x 6
  have h6 : ∀ x, x >>> 6 = x / 64 := fun x => Nat.shiftRight_eq_div_pow x 6
  have hb0 : lb / 64 = (lb + 0) / 64 % window.length := by
    rw [add_zero, Nat.mod_eq_of_lt]
    omega
  simp only [clearMarks, h63, h6, hend]
  split
  · next hsame =>
    have hword := (Cleared.start window lb).word inc (pow2Mask bmi2 inc <<< (lb % 64)) hb0 hsame (by omega) hpos
      fun i hi => by
        rw [getLsbD_shiftLeft]
        by_cases hlow : i < lb % 64
        · simp [hlow]
        · rw [getLsbD_pow2Mask (by omega) (hmask.imp_right fun h h64 => h ⟨h64, by omega⟩)]
          have hiff : i - lb % 64 < inc ↔ lb % 64 ≤ i ∧ i < lb % 64 + inc := by omega
          simp [hi, hlow, hiff]
    simpa using hword
  · next hcross =>
    -- the rest of the first word
    have hfirst := (Cleared.start window lb).word (64 - lb % 64) (allOnes 64 <<< (lb % 64)) hb0 (by omega)
      (by omega) hpos fun i hi => by
        rw [getLsbD_shiftLeft, getLsbD_allOnes]
        by_cases hlow : i < lb % 64
        · simp [hlow]
        · simp [hi, hlow, show i - lb % 64 < 64 by omega, show lb % 64 ≤ i by omega]
          omega
    rw [zero_add, zero_add] at hfirst
    have hnext : (lb / 64 + 1) &&& (window.length - 1) = (lb + (64 - lb % 64)) / 64 % window.length := by
      rw [and_blocks hk]
      congr 1
      omega
    obtain ⟨window', seen', heq, hfull⟩ :=
      clearWords_cleared hk ((inc + lb % 64 - 64 - (lb + inc) % 64) / 64) hfirst
      (by omega) (by omega)
    rw [hnext, clearFullWords_eq hk _ _ _ _ (Nat.mod_lt _ hpos) (by omega), heq]
    -- the start of the last word
    have hdone : 64 - lb % 64 + 64 * ((inc + lb % 64 - 64 - (lb + inc) % 64) / 64) + (lb + inc) % 64 = inc := by omega
    have hlast := hfull.word ((lb + inc) % 64) (pow2Mask bmi2 ((lb + inc) % 64)) rfl (by omega) (by omega) hpos
      fun i _ => by
        rw [getLsbD_pow2Mask (by omega) (.inr (by omega))]
        exact decide_eq_decide.mpr (by omega)
    rw [hdone, ← add_assoc] at hlast
    exact hlast

/-- A mask without bits does no harm where none of them is set. -/
theorem clearMarks_cleared_or (hinc : inc < 64 * window.length)
    (hmask : bmi2 = true ∨ ¬ (inc = 64 ∧ lb % 64 = 0) ∨ ringOnes window lb inc = 0) :
    Cleared window lb inc (clearMarks bmi2 window window.length lb ((lb + inc) % (64 * window.length)) inc).1
      (clearMarks bmi2 window window.length lb ((lb + inc) % (64 * window.length)) inc).2 := by
  by_cases hmask' : bmi2 = true ∨ ¬ (inc = 64 ∧ lb % 64 = 0)
  · exact clearMarks_cleared hk hlb hinc hmask'
  · obtain ⟨rfl, rfl, hlow⟩ : bmi2 = false ∧ inc = 64 ∧ lb % 64 = 0 := by simpa using hmask'
    have hnone : ringOnes window lb 64 = 0 := by simpa [hlow] using hmask
    rw [clearMarks_skips hlow]
    refine ⟨rfl, fun o ho => ?_, hnone.symm⟩
    rcases lt_or_ge o 64 with hlt | hge
    · have hbit := countP_eq_zero.mp hnone o (mem_range.mpr hlt)
      simp [hbit]
    · simp [hge]

/-- The bits at distance `inc` and more from the old lower bound survive the shift. -/
theorem clearMarks_keeps {o : ℕ} (hinc : inc ≤ o) (ho : o < 64 * window.length) :
    ringBit (clearMarks bmi2 window window.length lb ((lb + inc) % (64 * window.length)) inc).1 (lb + o) =
      ringBit window (lb + o) := by
  by_cases hmask : bmi2 = true ∨ ¬ (inc = 64 ∧ lb % 64 = 0)
  · have hbit := (clearMarks_cleared hk hlb (lt_of_le_of_lt hinc ho) hmask).bit o ho
    rwa [decide_eq_true hinc, Bool.true_and] at hbit
  · -- the mask of a build without BMI2 has no bit at all here
    obtain ⟨rfl, rfl, hlow⟩ : bmi2 = false ∧ inc = 64 ∧ lb % 64 = 0 := by simpa using hmask
    rw [clearMarks_skips hlow]

end

end Vpp.Ipsec
