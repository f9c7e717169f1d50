import Mathlib

/-! Bitmaps of `vppinfra/bitmap.h`: a vector of 64-bit words, with the bit helpers of `clib.h` and
    `bitops.h` that the users of these bitmaps call.

    A bitmap is a list of words; bit `i` is bit `i % 64` of word `i / 64`. The only fact the callers
    need is how reading a bit reacts to each way of changing a word (`clibBitmapGet_*`). -/

namespace Vpp.Vppinfra
open BitVec List

/-- `uword`: a 64-bit word. -/
abbrev Uword := BitVec 64

/-- `pow2_mask`: the low `x` bits. Builds with BMI2 use `_bzhi_u64`, which saturates at 64; the
    generic `((uword) 1 << x) - 1` shifts by `x` modulo 64 there, and yields no bit at all. -/
def pow2Mask (bmi2 : Bool) (x : ℕ) : Uword :=
  if bmi2 then (if x < 64 then (1#64 <<< x) - 1 else allOnes 64)
  else (1#64 <<< (x % 64)) - 1

def countSetBits (x : Uword) : ℕ := x.cpop.toNat

/-- `min_log2`: position of the highest set bit. -/
def minLog2 (x : ℕ) : ℕ := Nat.log2 x

/-- `max_log2`: `min_log2`, rounded up unless `x` is a power of two. -/
def maxLog2 (x : ℕ) : ℕ :=
  let l := minLog2 x
  if x > 1 <<< l then l + 1 else l

/-- `clib_bitmap_get`: bits past the end of the vector read as clear. -/
def clibBitmapGet (ai : List Uword) (i : ℕ) : Bool :=
  decide (i / 64 < ai.length) && ((ai.getD (i / 64) 0) >>> (i % 64)).getLsbD 0

/-- `clib_bitmap_set_no_check`, without the old value it returns (no caller here reads it). -/
def clibBitmapSetNoCheck (a : List Uword) (i : ℕ) (newValue : Bool) : List Uword :=
  let bit := 1#64 <<< (i % 64)
  let ai := a.getD (i / 64) 0 &&& ~~~bit
  a.set (i / 64) (ai ||| ((if newValue then 1#64 else 0#64) <<< (i % 64)))

def clibBitmapRemoveTrailingZeros (a : List Uword) : List Uword := a.rdropWhile (· == 0)

/-- `clib_bitmap_set`: the vector grows for a bit behind its end, unless the bit is cleared, and ends with a word that
    is not zero. -/
def clibBitmapSet (ai : List Uword) (i : ℕ) (value : Bool) : List Uword :=
  if value = false ∧ ai.length ≤ i / 64 then ai
  else
    let ai := clibBitmapSetNoCheck (ai ++ List.replicate (i / 64 + 1 - ai.length) 0) i value
    if ai.getD (i / 64) 0 = 0 then clibBitmapRemoveTrailingZeros ai else ai

/-- `clib_bitmap_foreach`: the bits that are set, from the lowest on. -/
def clibBitmapForeach (ai : List Uword) : List ℕ := (range (64 * ai.length)).filter (clibBitmapGet ai)

/-- `clib_bitmap_get_multiple_no_check`: `nBits` bits from bit `i` on, all in one word. -/
def clibBitmapGetMultipleNoCheck (bmi2 : Bool) (ai : List Uword) (i nBits : ℕ) : Uword :=
  (ai.getD (i / 64) 0 >>> (i % 64)) &&& pow2Mask bmi2 nBits

/-- `clib_bitmap_get_multiple`: `nBits` bits from bit `i` on, in one word or in two. -/
def clibBitmapGetMultiple (bitmap : List Uword) (i nBits : ℕ) : Uword :=
  let i0 := i / 64
  let i1 := i % 64
  let result : Uword :=
    if i0 < bitmap.length then
      let word := bitmap.getD i0 0 >>> i1
      if nBits < 64 then word &&& ((1#64 <<< nBits) - 1) else word
    else 0
  -- overlap into the next word
  if i1 + nBits > 64 ∧ i0 + 1 < bitmap.length then
    result ||| ((bitmap.getD (i0 + 1) 0 &&& ((1#64 <<< ((nBits - (64 - i1)) % 64)) - 1)) <<< (64 - i1))
  else result

def clibBitmapZero (a : List Uword) : List Uword := a.map (fun _ => 0)

def clibBitmapCountSetBits (a : List Uword) : ℕ := (a.map countSetBits).sum

/-- The set bits are counted one by one. -/
theorem countSetBits_eq (x : Uword) : countSetBits x = (range 64).countP x.getLsbD := by
  have hrec (n : ℕ) : x.cpopNatRec n 0 = (range n).countP x.getLsbD := by
    induction n with
    | zero => rfl
    | succ n ih =>
      rw [cpopNatRec, cpopNatRec_eq, ih, range_succ, countP_append]
      cases hbit : x.getLsbD n <;> simp [hbit]
  rw [countSetBits, toNat_cpop, hrec]

theorem getLsbD_low_bits {x : ℕ} (hx : x < 64) (i : ℕ) :
    ((1#64 <<< x) - 1).getLsbD i = decide (i < x) := by
  have hpow : 2 ^ x < 2 ^ 64 := Nat.pow_lt_pow_right (by decide) hx
  have hpos : 0 < 2 ^ x := Nat.two_pow_pos x
  have hval : ((1#64 <<< x) - 1).toNat = 2 ^ x - 1 := by
    have hone : BitVec.toNat (1 : BitVec 64) = 1 := rfl
    have hshift : (1#64 <<< x).toNat = 2 ^ x := by
      rw [toNat_shiftLeft, Nat.shiftLeft_eq, toNat_ofNat, Nat.one_mod_two_pow_eq_one.mpr
        (by decide), one_mul, Nat.mod_eq_of_lt hpow]
    rw [toNat_sub, hshift, hone]
    omega
  rw [getLsbD, hval, Nat.testBit_two_pow_sub_one]

/-- The bits of `pow2_mask (x)` are those below `x`, unless a build without BMI2 asks for all 64. -/
theorem getLsbD_pow2Mask {bmi2 : Bool} {x i : ℕ} (hx : x ≤ 64) (hfits : bmi2 = true ∨ x ≠ 64) :
    (pow2Mask bmi2 x).getLsbD i = decide (i < x) := by
  unfold pow2Mask
  by_cases hlt : x < 64
  · rw [Nat.mod_eq_of_lt hlt, if_pos hlt, ite_self]
    exact getLsbD_low_bits hlt i
  · obtain rfl : x = 64 := by omega
    have hon : bmi2 = true := hfits.resolve_right (by simp)
    rw [if_pos hon, if_neg hlt, getLsbD_allOnes]

variable (a : List Uword) (i : ℕ)

theorem clibBitmapGet_eq : clibBitmapGet a i = (a.getD (i / 64) 0).getLsbD (i % 64) := by
  by_cases hi : i / 64 < a.length <;> simp [clibBitmapGet, hi]

@[simp] theorem length_clibBitmapSetNoCheck (v : Bool) :
    (clibBitmapSetNoCheck a i v).length = a.length := by
  simp [clibBitmapSetNoCheck]

@[simp] theorem length_clibBitmapZero : (clibBitmapZero a).length = a.length := by
  simp [clibBitmapZero]

theorem clibBitmapGet_zero : clibBitmapGet (clibBitmapZero a) i = false := by
  rw [clibBitmapGet, clibBitmapZero, getD_eq_getElem?_getD, getElem?_map]
  cases a[i / 64]? <;> simp

/-- Reading a bit after one word has been replaced. -/
theorem clibBitmapGet_set {b : ℕ} (w : Uword) (hb : b < a.length) (j : ℕ) :
    clibBitmapGet (a.set b w) j = if b = j / 64 then w.getLsbD (j % 64) else clibBitmapGet a j := by
  rw [clibBitmapGet_eq, clibBitmapGet_eq]
  by_cases hj : b = j / 64
  · subst hj; simp [getD_eq_getElem?_getD, hb]
  · simp [getD_eq_getElem?_getD, hj]

/-- Writing bit `i` changes no other. -/
theorem clibBitmapGet_setNoCheck (v : Bool) {i : ℕ} (hi : i / 64 < a.length) (j : ℕ) :
    clibBitmapGet (clibBitmapSetNoCheck a i v) j = if i = j then v else clibBitmapGet a j := by
  simp only [clibBitmapSetNoCheck]
  rw [clibBitmapGet_set _ _ hi]
  have hlt : j % 64 < 64 := Nat.mod_lt _ (by decide)
  by_cases hb : i / 64 = j / 64
  · rw [if_pos hb, hb, clibBitmapGet_eq]
    simp only [getLsbD_or, getLsbD_and, getLsbD_not, getLsbD_shiftLeft,
      getLsbD_one]
    by_cases heq : i = j
    · subst heq
      cases v <;> simp [hlt]
    · have hbit : i % 64 ≠ j % 64 := by omega
      by_cases hbelow : j % 64 < i % 64
      · cases v <;> simp [hlt, hbelow, heq]
      · have habove : ¬ (j % 64 - i % 64 = 0) := by omega
        cases v <;> simp [hlt, hbelow, heq, habove]
  · have hne : i ≠ j := by rintro rfl; exact hb rfl
    rw [if_neg hb, if_neg hne]

/-- Setting bit `i` turns on bit `i` and no other. -/
theorem clibBitmapGet_setNoCheck_true {i : ℕ} (hi : i / 64 < a.length) (j : ℕ) :
    clibBitmapGet (clibBitmapSetNoCheck a i true) j = (decide (i = j) || clibBitmapGet a j) := by
  rw [clibBitmapGet_setNoCheck a true hi]
  by_cases heq : i = j <;> simp [heq]

/-- Bits behind the end are clear. -/
theorem clibBitmapGet_of_le {a : List Uword} {i : ℕ} (hi : a.length ≤ i / 64) : clibBitmapGet a i = false := by
  simp [clibBitmapGet, not_lt.mpr hi]

theorem clibBitmapGet_append_zeros (n i : ℕ) :
    clibBitmapGet (a ++ List.replicate n 0) i = clibBitmapGet a i := by
  rw [clibBitmapGet_eq]
  by_cases hi : i / 64 < a.length
  · rw [clibBitmapGet_eq, getD_append _ _ _ _ hi]
  · rw [clibBitmapGet_of_le (not_lt.mp hi), getD_append_right _ _ _ _ (not_lt.mp hi), getD_eq_getElem?_getD,
      getElem?_replicate]
    split <;> simp

theorem clibBitmapGet_removeTrailingZeros :
    clibBitmapGet (clibBitmapRemoveTrailingZeros a) i = clibBitmapGet a i := by
  induction a using reverseRecOn with
  | nil => rfl
  | append_singleton a w ih =>
    unfold clibBitmapRemoveTrailingZeros at ih ⊢
    by_cases hw : w = 0
    · subst hw
      rw [rdropWhile_concat_pos _ _ _ (by simp), ih]
      exact (clibBitmapGet_append_zeros a 1 i).symm
    · rw [rdropWhile_concat_neg _ _ _ (by simpa using hw)]

/-- Reading a bit after `clib_bitmap_set`. -/
theorem clibBitmapGet_bitmapSet (v : Bool) (j : ℕ) :
    clibBitmapGet (clibBitmapSet a i v) j = if i = j then v else clibBitmapGet a j := by
  unfold clibBitmapSet
  split
  · next h =>
    split
    · next heq =>
      rw [← heq, h.1, clibBitmapGet_of_le h.2]
    · rfl
  · next h =>
    set padded := a ++ List.replicate (i / 64 + 1 - a.length) (0 : Uword) with hpadded
    have hget : ∀ k, clibBitmapGet padded k = clibBitmapGet a k := clibBitmapGet_append_zeros a _
    have hset : clibBitmapGet (clibBitmapSetNoCheck padded i v) j = if i = j then v else clibBitmapGet a j := by
      rw [clibBitmapGet_setNoCheck _ _ (by rw [hpadded, length_append, length_replicate]; omega), hget]
    dsimp only
    split
    · rw [clibBitmapGet_removeTrailingZeros, hset]
    · exact hset

theorem mem_clibBitmapForeach {a : List Uword} {i : ℕ} : i ∈ clibBitmapForeach a ↔ clibBitmapGet a i = true := by
  rw [clibBitmapForeach, mem_filter, mem_range, and_iff_right_iff_imp]
  intro hget
  by_contra hi
  rw [clibBitmapGet_of_le (by omega)] at hget
  cases hget

/-- The bits come in ascending order. -/
theorem clibBitmapForeach_pairwise : (clibBitmapForeach a).Pairwise (· < ·) :=
  pairwise_lt_range.sublist filter_sublist

/-- A place on a ring of `64 * n` bits is in one of its words. -/
theorem ring_word_lt {n : ℕ} (hn : 0 < n) (p : ℕ) : p % (64 * n) / 64 < n := by
  rw [Nat.mod_mul_right_div_self]
  exact Nat.mod_lt _ hn

/-- A bitmap read as a ring of `64 * n` bits. -/
theorem clibBitmapGet_ring (bm : List Uword) (p : ℕ) :
    clibBitmapGet bm (p % (64 * bm.length)) = (bm.getD (p / 64 % bm.length) 0).getLsbD (p % 64) := by
  rw [clibBitmapGet_eq, Nat.mod_mul_right_div_self, Nat.mod_mul_right_mod]

end Vpp.Vppinfra
