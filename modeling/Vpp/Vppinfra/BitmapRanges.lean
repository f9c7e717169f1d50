import Vpp.Vppinfra.Bitmap

/-! Ranges of bits in a bitmap: `clib_bitmap_get_multiple`, `clib_bitmap_set_multiple` and `clib_bitmap_set_region`.

    The range `i .. i + n - 1` is written word by word, from the low end to the high one:

        word:      i / 64                                 (i + n - 1) / 64
              ······|xxxxxxxx | xxxxxxxxxxxxxx … xxxxxxxxxx | xxxx|··········
                    i             whole words                     i + n

    `Overwrites` says what has been written after some of the words; each word takes it on by a few bits. The last
    position of the range is computed in a machine word, and the length of the vector kept in 32 bits. Where one of them
    wraps around, the vector is not made long enough and the first write is outside of it. -/

namespace Vpp.Vppinfra
open BitVec List

/-- `clib_bitmap_vec_validate`: the vector grows by zeros until it has a word `i`. Its length is kept in a `u32`; what
    lies behind that is not in the vector. -/
def clibBitmapVecValidate (bitmap : List Uword) (i : ℕ) : List Uword :=
  if i < bitmap.length then bitmap
  else
    let len := (i + 1) % 2 ^ 32
    (bitmap ++ List.replicate (len - bitmap.length) 0).take len

/-- `bitmap[i0] = f (bitmap[i0])`, for a word of the vector. -/
def setWord (bitmap : List Uword) (i0 : ℕ) (f : Uword → Uword) : Option (List Uword) :=
  if i0 < bitmap.length then some (bitmap.set i0 (f (bitmap.getD i0 0))) else none

/-- `i + n_bits - 1`, in a machine word. -/
def lastBit (i nBits : ℕ) : ℕ := (i + nBits + (2 ^ 64 - 1)) % 2 ^ 64

/-- `clib_bitmap_set_multiple`: at most 64 bits, in one word or in two. -/
def clibBitmapSetMultiple (bitmap : List Uword) (i : ℕ) (value : Uword) (nBits : ℕ) : Option (List Uword) := do
  let i0 := i / 64
  let i1 := i % 64
  let bitmap := clibBitmapVecValidate bitmap (lastBit i nBits / 64)
  let m : Uword := if nBits < 64 then (1#64 <<< nBits) - 1 else allOnes 64
  let value := value &&& m
  let bitmap ← setWord bitmap i0 fun t => (t &&& ~~~(m <<< i1)) ||| (value <<< i1)
  if i1 + nBits > 64 ∧ i0 + 1 < bitmap.length then
    let t := 64 - i1
    setWord bitmap (i0 + 1) fun w => (w &&& ~~~((1#64 <<< (nBits - t)) - 1)) ||| (value >>> t)
  else some bitmap

/-- Sets or clears the bits of a mask. -/
def setMask (value : Bool) (mask w : Uword) : Uword := if value then w ||| mask else w &&& ~~~mask

/-- `bitmap[a0] = value ? ~0 : 0` for `n` words from `a0` on. -/
def setRegionLoop (value : Bool) : ℕ → ℕ → List Uword → Option (List Uword)
  | 0, _, bitmap => some bitmap
  | n + 1, a0, bitmap => do
    let bitmap ← setWord bitmap a0 fun _ => if value then allOnes 64 else 0
    setRegionLoop value n (a0 + 1) bitmap

def clibBitmapSetRegion (bmi2 : Bool) (bitmap : List Uword) (i : ℕ) (value : Bool) (nBits : ℕ) :
    Option (List Uword) := do
  let a0 := i / 64
  let a1 := i % 64
  let b0 := lastBit i nBits / 64
  let b1 := lastBit i nBits % 64
  let bitmap := clibBitmapVecValidate bitmap b0
  let mask : Uword := if nBits < 64 then pow2Mask bmi2 nBits else allOnes 64
  let bitmap ← setWord bitmap a0 (setMask value (mask <<< a1))
  let bitmap ← setRegionLoop value (b0 - (a0 + 1)) (a0 + 1) bitmap
  -- the index after the loop
  if max (a0 + 1) b0 = b0 then setWord bitmap b0 (setMask value (allOnes 64 >>> (64 - b1 - 1)))
  else some bitmap

/-- So many words, with the bits of `v` from `i` up to `k` and those of `a` elsewhere. -/
structure Overwrites (v : ℕ → Bool) (a : List Uword) (l i k : ℕ) (a' : List Uword) : Prop where
  length : a'.length = l
  get : ∀ j, clibBitmapGet a' j = if i ≤ j ∧ j < k then v j else clibBitmapGet a j

section
variable {v : ℕ → Bool} {value : Bool} {a a₁ : List Uword} {l i k b nBits : ℕ}

/-- The last bit of a range that does not wrap around. -/
theorem lastBit_eq (hn : 1 ≤ nBits) (hfit : (i + nBits - 1) / 64 + 1 < 2 ^ 32) : lastBit i nBits = i + nBits - 1 := by
  unfold lastBit
  omega

/-- A vector that has the word, before anything is written. -/
theorem Overwrites.start (v : ℕ → Bool) (a : List Uword) (hb : b + 1 < 2 ^ 32) (i : ℕ) :
    Overwrites v a (max a.length (b + 1)) i i (clibBitmapVecValidate a b) := by
  have hgrown : clibBitmapVecValidate a b = a ++ List.replicate (b + 1 - a.length) 0 := by
    simp only [clibBitmapVecValidate, Nat.mod_eq_of_lt hb]
    split
    · next hlt => simp [Nat.sub_eq_zero_of_le (Nat.succ_le_of_lt hlt)]
    · exact take_of_length_le (by simp; omega)
  rw [hgrown]
  constructor
  · rw [length_append, length_replicate]
    omega
  · intro j
    rw [clibBitmapGet_append_zeros, if_neg (by omega)]

/-- One word takes the range on to `k'`. -/
theorem Overwrites.word (h : Overwrites v a l i k a₁) {f : Uword → Uword} (k' : ℕ) (hik : i ≤ k) (hb : b < l)
    (hlo : 64 * b ≤ k) (hhi : k' ≤ 64 * b + 64) (hkk : k ≤ k')
    (hf : ∀ w : Uword, ∀ p < 64, (f w).getLsbD p =
      if k ≤ 64 * b + p ∧ 64 * b + p < k' then v (64 * b + p) else w.getLsbD p) :
    ∃ a₂, setWord a₁ b f = some a₂ ∧ Overwrites v a l i k' a₂ := by
  have hlen := h.length ▸ hb
  refine ⟨_, if_pos hlen, by rw [length_set]; exact h.length, fun j => ?_⟩
  rw [clibBitmapGet_set _ _ hlen]
  by_cases hword : b = j / 64
  · subst hword
    have hpos : 64 * (j / 64) + j % 64 = j := Nat.div_add_mod j 64
    rw [if_pos rfl, hf _ _ (Nat.mod_lt _ (by decide)), hpos, ← clibBitmapGet_eq, h.get]
    by_cases hin : k ≤ j ∧ j < k'
    · rw [if_pos hin, if_pos (by omega)]
    · rw [if_neg hin]
      exact if_congr (by omega) rfl rfl
  · rw [if_neg hword, h.get]
    exact if_congr (by omega) rfl rfl

/-- Reading up to 64 bits. -/
theorem getLsbD_getMultiple (bitmap : List Uword) (i : ℕ) {nBits : ℕ} (hn : nBits ≤ 64) (p : ℕ) :
    (clibBitmapGetMultiple bitmap i nBits).getLsbD p = (decide (p < nBits) && clibBitmapGet bitmap (i + p)) := by
  have hfirst : (if i / 64 < bitmap.length then
      (if nBits < 64 then bitmap.getD (i / 64) 0 >>> (i % 64) &&& ((1#64 <<< nBits) - 1)
        else bitmap.getD (i / 64) 0 >>> (i % 64)) else 0 : Uword).getLsbD p =
      (decide (p < nBits) && (bitmap.getD (i / 64) 0).getLsbD (i % 64 + p)) := by
    split
    · split
      · next hlt => rw [getLsbD_and, getLsbD_low_bits hlt, getLsbD_ushiftRight, Bool.and_comm]
      · rw [getLsbD_ushiftRight]
        by_cases hp : p < nBits
        · rw [decide_eq_true hp, Bool.true_and]
        · rw [getLsbD_of_ge _ _ (by omega), Bool.and_false]
    · next hout => rw [getD_eq_default _ _ (not_lt.mp hout)]; simp
  simp only [clibBitmapGetMultiple]
  by_cases hp : p < nBits
  · rw [decide_eq_true hp, Bool.true_and] at hfirst ⊢
    rw [clibBitmapGet_eq]
    by_cases hlow : i % 64 + p < 64
    · have hword : (i + p) / 64 = i / 64 := by omega
      have hbit : (i + p) % 64 = i % 64 + p := by omega
      rw [hword, hbit, ← hfirst]
      split
      · rw [getLsbD_or, getLsbD_shiftLeft]
        simp [show p < 64 - i % 64 by omega]
      · rfl
    · have hword : (i + p) / 64 = i / 64 + 1 := by omega
      have hbit : (i + p) % 64 = p - (64 - i % 64) := by omega
      rw [getLsbD_of_ge _ _ (not_lt.mp hlow)] at hfirst
      rw [hword, hbit]
      split
      · rw [getLsbD_or, hfirst, getLsbD_shiftLeft, getLsbD_and, getLsbD_low_bits (Nat.mod_lt _ (by decide))]
        simp [show p < 64 by omega, show ¬ p < 64 - i % 64 by omega,
          show p - (64 - i % 64) < (nBits - (64 - i % 64)) % 64 by omega]
      · rw [hfirst, getD_eq_default _ _ (by omega)]
        simp
  · rw [decide_eq_false hp, Bool.false_and] at hfirst ⊢
    split
    · rw [getLsbD_or, hfirst, getLsbD_shiftLeft, getLsbD_and, getLsbD_low_bits (Nat.mod_lt _ (by decide))]
      simp
      omega
    · exact hfirst

/-- Writing up to 64 bits. -/
theorem clibBitmapSetMultiple_spec (bitmap : List Uword) (value : Uword) (hn : 1 ≤ nBits) (h64 : nBits ≤ 64)
    (hfit : (i + nBits - 1) / 64 + 1 < 2 ^ 32) :
    ∃ bitmap', clibBitmapSetMultiple bitmap i value nBits = some bitmap' ∧
      Overwrites (fun j => value.getLsbD (j - i)) bitmap (max bitmap.length (lastBit i nBits / 64 + 1)) i (i + nBits)
        bitmap' := by
  have hlast := lastBit_eq hn hfit
  unfold clibBitmapSetMultiple
  generalize lastBit i nBits = e at hlast ⊢
  generalize hm : (if nBits < 64 then (1#64 <<< nBits) - 1 else allOnes 64 : Uword) = m
  have hmask (p : ℕ) : m.getLsbD p = decide (p < nBits) := hm ▸ @getLsbD_pow2Mask true _ p h64 (.inl rfl)
  obtain ⟨a₁, hset₁, h₁⟩ :=
    (Overwrites.start (b := e / 64) (fun j => value.getLsbD (j - i)) bitmap (by omega) i).word
    (f := fun t => (t &&& ~~~(m <<< (i % 64))) ||| ((value &&& m) <<< (i % 64)))
    (min (i + nBits) (64 * (i / 64) + 64)) le_rfl (b := i / 64) (by omega) (by omega) (by omega) (by omega) (by
      intro w p hp
      simp only [getLsbD_or, getLsbD_and, getLsbD_not, getLsbD_shiftLeft, hp]
      by_cases hlow : p < i % 64
      · rw [if_neg (by omega)]
        simp [hlow]
      · have hpos : 64 * (i / 64) + p - i = p - i % 64 := by omega
        rw [hmask, hpos]
        by_cases hin : p - i % 64 < nBits
        · rw [if_pos (by omega)]
          simp [hlow, hin]
        · rw [if_neg (by omega)]
          simp [hlow, hin])
  simp only [hset₁, Option.bind_eq_bind, Option.bind_some]
  split
  · next htwo =>
    refine h₁.word (i + nBits) (by omega) (by omega) (by omega) (by omega) (by omega) ?_
    intro w p hp
    have hpos : 64 * (i / 64 + 1) + p - i = 64 - i % 64 + p := by omega
    simp only [getLsbD_or, getLsbD_and, getLsbD_not, getLsbD_ushiftRight, hp, hmask]
    rw [getLsbD_low_bits (by omega), hpos]
    by_cases hin : p < nBits - (64 - i % 64)
    · rw [if_pos (by omega)]
      simp [hin, show 64 - i % 64 + p < nBits by omega]
    · rw [if_neg (by omega)]
      simp [hin, show ¬ 64 - i % 64 + p < nBits by omega]
  · next hone =>
    have hend : min (i + nBits) (64 * (i / 64) + 64) = i + nBits := by
      have hlen := h₁.length
      omega
    exact ⟨a₁, rfl, hend ▸ h₁⟩

theorem getLsbD_setMask (value : Bool) (mask w : Uword) {p : ℕ} (hp : p < 64) :
    (setMask value mask w).getLsbD p = if mask.getLsbD p then value else w.getLsbD p := by
  cases value <;> simp only [setMask, Bool.false_eq_true, if_true, if_false, getLsbD_or, getLsbD_and, getLsbD_not, hp,
    decide_true, Bool.true_and] <;> cases mask.getLsbD p <;> simp

/-- The whole words. -/
theorem setRegionLoop_spec (n : ℕ) (h : Overwrites (fun _ => value) a l i (64 * b) a₁) (hi : i ≤ 64 * b)
    (hn : b + n ≤ l) :
    ∃ a₂, setRegionLoop value n b a₁ = some a₂ ∧ Overwrites (fun _ => value) a l i (64 * (b + n)) a₂ := by
  induction n generalizing b a₁ with
  | zero => exact ⟨a₁, rfl, h⟩
  | succ n ih =>
    obtain ⟨a₂, hset, h₂⟩ :=
      h.word (f := fun _ => if value then allOnes 64 else 0) (64 * (b + 1)) hi (by omega) le_rfl
      (by omega) (by omega) (by
        intro w p hp
        have hin : 64 * b ≤ 64 * b + p ∧ 64 * b + p < 64 * (b + 1) := by omega
        rw [if_pos hin]
        cases value with
        | false => simp
        | true => rw [if_pos rfl, getLsbD_allOnes, decide_eq_true hp])
    obtain ⟨a₃, hloop, h₃⟩ := ih h₂ (by omega) (by omega)
    refine ⟨a₃, ?_, by rwa [Nat.add_right_comm] at h₃⟩
    simp only [setRegionLoop, hset, Option.bind_eq_bind, Option.bind_some, hloop]

/-- Setting or clearing a range of any length. -/
theorem clibBitmapSetRegion_spec (bmi2 : Bool) (bitmap : List Uword) (value : Bool) (hn : 1 ≤ nBits)
    (hfit : (i + nBits - 1) / 64 + 1 < 2 ^ 32) :
    ∃ bitmap', clibBitmapSetRegion bmi2 bitmap i value nBits = some bitmap' ∧
      Overwrites (fun _ => value) bitmap (max bitmap.length (lastBit i nBits / 64 + 1)) i (i + nBits) bitmap' := by
  have hlast := lastBit_eq hn hfit
  unfold clibBitmapSetRegion
  generalize lastBit i nBits = e at hlast ⊢
  obtain ⟨a₁, hset₁, h₁⟩ := (Overwrites.start (b := e / 64) (fun _ => value) bitmap (by omega) i).word
    (f := setMask value ((if nBits < 64 then pow2Mask bmi2 nBits else allOnes 64) <<< (i % 64)))
    (min (i + nBits) (64 * (i / 64) + 64)) le_rfl (b := i / 64) (by omega) (by omega) (by omega) (by omega) (by
      intro w p hp
      have hmask : ((if nBits < 64 then pow2Mask bmi2 nBits else allOnes 64 : Uword) <<< (i % 64)).getLsbD p =
          decide (i % 64 ≤ p ∧ p < i % 64 + nBits) := by
        rw [getLsbD_shiftLeft]
        by_cases hlow : p < i % 64
        · simp [hlow]
        · have hge : i % 64 ≤ p := by omega
          split
          · next hlt =>
            rw [getLsbD_pow2Mask hlt.le (.inr hlt.ne)]
            simp [hp, hlow, hge]
            omega
          · rw [getLsbD_allOnes]
            simp [hp, hlow, hge]
            omega
      rw [getLsbD_setMask _ _ _ hp, hmask]
      exact if_congr (by rw [decide_eq_true_iff]; omega) rfl rfl)
  dsimp only
  rw [hset₁, Option.bind_eq_bind, Option.bind_some]
  by_cases hone : e / 64 = i / 64
  · have hend : min (i + nBits) (64 * (i / 64) + 64) = i + nBits := by omega
    rw [hone, hend] at h₁
    rw [hone, Nat.sub_eq_zero_of_le (Nat.le_succ _), setRegionLoop, Option.bind_some, if_neg (by omega)]
    exact ⟨a₁, rfl, h₁⟩
  · have hend : min (i + nBits) (64 * (i / 64) + 64) = 64 * (i / 64 + 1) := by omega
    rw [hend] at h₁
    obtain ⟨a₂, hloop, h₂⟩ := setRegionLoop_spec (e / 64 - (i / 64 + 1)) h₁ (by omega) (by omega)
    rw [hloop, Option.bind_some, if_pos (by omega)]
    refine h₂.word (i + nBits) (by omega) (by omega) (by omega) (by omega) (by omega) ?_
    intro w p hp
    rw [getLsbD_setMask _ _ _ hp, getLsbD_ushiftRight, getLsbD_allOnes]
    exact if_congr (by rw [decide_eq_true_iff]; omega) rfl rfl

/-- A fresh bitmap gets as many words as it needs. -/
theorem clibBitmapSetRegion_fresh (bmi2 : Bool) (hn : 1 ≤ nBits) (hfit : (nBits - 1) / 64 + 1 < 2 ^ 32) :
    ∃ bitmap, clibBitmapSetRegion bmi2 [] 0 true nBits = some bitmap ∧ bitmap.length = (nBits - 1) / 64 + 1 ∧
      ∀ j, clibBitmapGet bitmap j = decide (j < nBits) := by
  obtain ⟨bitmap, hset, h⟩ := clibBitmapSetRegion_spec (i := 0) bmi2 [] true hn (by omega)
  refine ⟨bitmap, hset, ?_, fun j => ?_⟩
  · rw [h.length, lastBit_eq hn (by omega)]
    simp
  · rw [h.get, clibBitmapGet_of_le (Nat.zero_le _)]
    simp

end

/-- The three operations on a range of bits, as operations on sets of bit numbers. -/
theorem clibBitmap_ranges_exact (bmi2 : Bool) (bitmap : List Uword) (i nBits : ℕ) (hn : 1 ≤ nBits) :
    (nBits ≤ 64 → (i + nBits - 1) / 64 + 1 < 2 ^ 32 → ∀ value : Uword, ∃ bitmap',
      clibBitmapSetMultiple bitmap i value nBits = some bitmap' ∧
      ∀ j, clibBitmapGet bitmap' j =
        if i ≤ j ∧ j < i + nBits then value.getLsbD (j - i) else clibBitmapGet bitmap j) ∧
    (nBits ≤ 64 → ∀ p, (clibBitmapGetMultiple bitmap i nBits).getLsbD p =
      (decide (p < nBits) && clibBitmapGet bitmap (i + p))) ∧
    ((i + nBits - 1) / 64 + 1 < 2 ^ 32 → ∀ value : Bool, ∃ bitmap',
      clibBitmapSetRegion bmi2 bitmap i value nBits = some bitmap' ∧
      ∀ j, clibBitmapGet bitmap' j = if i ≤ j ∧ j < i + nBits then value else clibBitmapGet bitmap j) := by
  refine ⟨fun h64 hfit value => ?_, fun h64 p => getLsbD_getMultiple bitmap i h64 p, fun hfit value => ?_⟩
  · obtain ⟨bitmap', hset, h⟩ := clibBitmapSetMultiple_spec bitmap value hn h64 hfit
    exact ⟨bitmap', hset, h.get⟩
  · obtain ⟨bitmap', hset, h⟩ := clibBitmapSetRegion_spec bmi2 bitmap value hn hfit
    exact ⟨bitmap', hset, h.get⟩

/-- Eight bits across the end of a word. -/
theorem clibBitmap_ranges_two_words :
    (∃ bitmap', clibBitmapSetMultiple [5] 60 0xa5 8 = some bitmap' ∧ ∀ j, clibBitmapGet bitmap' j =
      if 60 ≤ j ∧ j < 60 + 8 then (0xa5 : Uword).getLsbD (j - 60) else clibBitmapGet [5] j) ∧
    (∀ p, (clibBitmapGetMultiple [5] 60 8).getLsbD p = (decide (p < 8) && clibBitmapGet [5] (60 + p))) ∧
    (∃ bitmap', clibBitmapSetRegion true [5] 60 true 8 = some bitmap' ∧ ∀ j, clibBitmapGet bitmap' j =
      if 60 ≤ j ∧ j < 60 + 8 then true else clibBitmapGet [5] j) := by
  obtain ⟨hset, hget, hregion⟩ := clibBitmap_ranges_exact true [5] 60 8 (by decide)
  exact ⟨hset (by decide) (by decide) _, hget (by decide), hregion (by decide) _⟩

/-- Two bits from the last position on: the end of the range is bit 0, and the vector gets one word. So it does for bit
    2^38, with a length of 2^32 + 1 words. -/
theorem clibBitmapSetMultiple_wraps : clibBitmapSetMultiple [] (2 ^ 64 - 1) 3 2 = none ∧
    clibBitmapVecValidate [] (lastBit (2 ^ 38) 1 / 64) = [0] ∧ clibBitmapSetMultiple [] (2 ^ 38) 1 1 = none := by
  decide +kernel

end Vpp.Vppinfra
