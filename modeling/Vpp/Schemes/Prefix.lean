import Mathlib

/-! Ranges of fixed-width numbers, compared digit by digit and by a common prefix.

    `lexDiff` compares two numbers from their most significant digit down and stops at the first
    difference; whatever the width of the digits, its sign is that of the difference of the numbers.

    A mask is a `PrefixMask` of a range when the two ends agree from every bit it keeps upwards. Then
    all numbers of the range agree on the bits it keeps:

        start   1 0 1 1 0 0 1 0
        stop    1 0 1 1 1 1 0 0
        mask    1 1 1 1 0 0 0 0         (the ends differ first at bit 3) -/

namespace Vpp.Schemes
open List BitVec

/-! ### Digit by digit -/

/-- Digit `k` of a number written with digits of `w` bits. -/
def digit (w k a : ℕ) : ℕ := a / 2 ^ (w * k) % 2 ^ w

/-- The difference of the first of `n` digits, from the most significant one, that differs. -/
def lexDiff (w : ℕ) : ℕ → ℕ → ℕ → ℤ
  | 0, _, _ => 0
  | n + 1, a, b =>
    if (digit w n a : ℤ) - digit w n b ≠ 0 then (digit w n a : ℤ) - digit w n b else lexDiff w n a b

theorem mod_succ_digits (w n a : ℕ) :
    a % 2 ^ (w * (n + 1)) = 2 ^ (w * n) * digit w n a + a % 2 ^ (w * n) := by
  rw [digit, Nat.mul_succ, pow_add, Nat.mod_mul]
  ring

theorem lexDiff_neg_iff (w n a b : ℕ) :
    lexDiff w n a b < 0 ↔ a % 2 ^ (w * n) < b % 2 ^ (w * n) := by
  induction n with
  | zero => simp [lexDiff, Nat.mod_one]
  | succ n ih =>
    have ha := Nat.mod_lt a (Nat.two_pow_pos (w * n))
    have hb := Nat.mod_lt b (Nat.two_pow_pos (w * n))
    rw [mod_succ_digits, mod_succ_digits, lexDiff]
    rcases Nat.lt_trichotomy (digit w n a) (digit w n b) with hlt | heq | hgt
    · have hle := Nat.mul_le_mul_left (2 ^ (w * n)) (Nat.succ_le_of_lt hlt)
      rw [Nat.mul_succ] at hle
      rw [if_pos (by omega)]
      constructor <;> intro <;> omega
    · rw [if_neg (by omega), ih, heq]
      omega
    · have hle := Nat.mul_le_mul_left (2 ^ (w * n)) (Nat.succ_le_of_lt hgt)
      rw [Nat.mul_succ] at hle
      rw [if_pos (by omega)]
      constructor <;> intro <;> omega

theorem lexDiff_swap (w n a b : ℕ) : lexDiff w n b a = - lexDiff w n a b := by
  induction n with
  | zero => rfl
  | succ n ih =>
    rw [lexDiff, lexDiff, ih]
    split <;> split <;> omega

/-- The order of two numbers of `w * n` bits, read off their digits. -/
theorem lexDiff_lt_zero {w n v : ℕ} (hv : w * n = v) (a b : BitVec v) :
    lexDiff w n a.toNat b.toNat < 0 ↔ a < b := by
  subst hv
  rw [lexDiff_neg_iff, Nat.mod_eq_of_lt a.isLt, Nat.mod_eq_of_lt b.isLt, lt_def]

theorem lexDiff_le_zero {w n v : ℕ} (hv : w * n = v) (a b : BitVec v) :
    lexDiff w n a.toNat b.toNat ≤ 0 ↔ a ≤ b := by
  have h := lexDiff_lt_zero hv b a
  rw [lexDiff_swap] at h
  rw [← BitVec.not_lt, ← h]
  omega

theorem zero_le_lexDiff {w n v : ℕ} (hv : w * n = v) (a b : BitVec v) :
    0 ≤ lexDiff w n a.toNat b.toNat ↔ b ≤ a := by
  rw [← BitVec.not_lt, ← lexDiff_lt_zero hv]
  omega

/-! ### Prefixes -/

section
variable {w : ℕ} {m a b v : BitVec w}

/-- The ends of a range agree from every bit of the mask upwards. -/
def PrefixMask (m a b : BitVec w) : Prop :=
  ∀ i, m.getLsbD i = true → ∀ j, i ≤ j → a.getLsbD j = b.getLsbD j

/-- All numbers of the range agree on the bits of the mask. -/
theorem PrefixMask.and_eq (h : PrefixMask m a b) (hav : a ≤ v) (hvb : v ≤ b) : v &&& m = a &&& m := by
  refine eq_of_getLsbD_eq fun i _ => ?_
  rw [getLsbD_and, getLsbD_and]
  cases hm : m.getLsbD i with
  | false => simp
  | true =>
    -- shifting the kept bit to the end leaves `v` between two equal numbers
    have hshift : a.toNat >>> i = b.toNat >>> i := by
      refine Nat.eq_of_testBit_eq fun j => ?_
      rw [Nat.testBit_shiftRight, Nat.testBit_shiftRight]
      exact h i hm (i + j) (Nat.le_add_right i j)
    have heq : v.toNat >>> i = a.toNat >>> i := by
      rw [Nat.shiftRight_eq_div_pow, Nat.shiftRight_eq_div_pow] at hshift ⊢
      have hle : a.toNat / 2 ^ i ≤ v.toNat / 2 ^ i := Nat.div_le_div_right hav
      have hge : v.toNat / 2 ^ i ≤ b.toNat / 2 ^ i := Nat.div_le_div_right hvb
      omega
    have hbit := congrArg (fun n => n.testBit 0) heq
    simp only [Nat.testBit_shiftRight, add_zero] at hbit
    simp only [Bool.and_true]
    exact hbit

/-- Every bit of `y` collects the bits of `x` at the given distances above it. -/
def Spread (ds : List ℕ) (x y : BitVec w) : Prop :=
  ∀ i, y.getLsbD i = ds.any fun d => x.getLsbD (i + d)

theorem Spread.self (x : BitVec w) : Spread [0] x x := by
  intro i
  simp

theorem Spread.shift {ds : List ℕ} {x y : BitVec w} (h : Spread ds x y) (k : ℕ) :
    Spread (ds ++ ds.map (k + ·)) x (y ||| y >>> k) := by
  intro i
  rw [getLsbD_or, getLsbD_ushiftRight, h i, add_comm k i, h (i + k), any_append,
    any_map]
  congr 2
  funext d
  simp [add_assoc]

/-- Once every distance is covered, what is left clear lies above the highest bit set. -/
theorem Spread.prefixMask {ds : List ℕ} {y : BitVec w} (h : Spread ds (a ^^^ b) y)
    (hds : ∀ d < w, d ∈ ds) : PrefixMask (~~~y) a b := by
  intro i hi j hij
  by_cases hj : j < w
  · rw [getLsbD_not, Bool.and_eq_true, Bool.not_eq_true', h i, any_eq_false] at hi
    have hbit := hi.2 (j - i) (hds _ (by omega))
    rw [Nat.add_sub_cancel' hij, getLsbD_xor] at hbit
    revert hbit
    cases a.getLsbD j <;> cases b.getLsbD j <;> simp
  · rw [getLsbD_of_ge _ _ (by omega), getLsbD_of_ge _ _ (by omega)]

end

end Vpp.Schemes
