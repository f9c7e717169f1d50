import Vpp.Ikev2.Keys

/-! The key expansion prf+ and the loop of `ikev2_calc_prfplus` that computes it.

        S ──▶ T1 = prf (K, S | 1) ──▶ T2 = prf (K, T1 | S | 2) ──▶ … ──▶ Tn

    The counter that labels the blocks also decides, behind the loop, whether the result is kept. It stands at
    255 after the last block that one byte can label, so an expansion of exactly 255 blocks is freed like one
    that ran out of labels (`ikev2CalcPrfplus_freed`). -/

namespace Vpp.Ikev2
open Vpp.Schemes List

section
variable (cr : Crypto) (tr : TransformData) (key seed : Bytes)

/-- The block `T i`; nothing stands in front of `T 1`. -/
def prfBlock : ℕ → Bytes
  | 0 => []
  | i + 1 => cr.prf tr key (prfBlock i ++ seed ++ [BitVec.ofNat 8 (i + 1)])

/-- `T1 | T2 | … | Tn` -/
def prfBlocks (n : ℕ) : Bytes := (range n).flatMap fun i => prfBlock cr tr key seed (i + 1)

theorem prfBlocks_succ (n : ℕ) :
    prfBlocks cr tr key seed (n + 1) = prfBlocks cr tr key seed n ++ prfBlock cr tr key seed (n + 1) := by
  simp [prfBlocks, range_succ]

theorem length_prfBlocks (n : ℕ) : (prfBlocks cr tr key seed n).length = n * tr.keyTrunc := by
  induction n with
  | zero => simp [prfBlocks]
  | succ n ih =>
    rw [prfBlocks_succ, length_append, ih, prfBlock, cr.prf_length]
    ring

section
variable {len n : ℕ} (hn : IsLeast {n | len ≤ n * tr.keyTrunc} n)
include hn

/-- The loop from its `x`-th round on: it stops behind block `n`, unless the counter is used up by then. -/
theorem prfplusLoop_eq (fuel x : ℕ) (hx : x + fuel = 255) (hle : x ≤ n) :
    prfplusLoop cr tr key seed len fuel (prfBlock cr tr key seed x) (prfBlocks cr tr key seed x) =
      if n < 255 then prfBlocks cr tr key seed n else [] := by
  induction fuel generalizing x with
  | zero => rw [prfplusLoop, if_neg (by omega)]
  | succ fuel ih =>
    rw [prfplusLoop, length_prfBlocks]
    rcases hle.eq_or_lt with rfl | hlt
    · rw [if_neg (not_lt.mpr hn.1), if_pos (by omega)]
    · -- fewer than `n` blocks are too short
      have hshort : x * tr.keyTrunc < len := not_le.mp fun h => not_le.mpr hlt (hn.2 h)
      have hlabel : 255 - fuel = x + 1 := by omega
      rw [if_pos hshort, hlabel]
      have hnext := ih (x + 1) (by omega) hlt
      rwa [prfBlocks_succ] at hnext

theorem ikev2CalcPrfplus_eq :
    ikev2CalcPrfplus cr tr key seed len = if n < 255 then prfBlocks cr tr key seed n else [] :=
  prfplusLoop_eq cr tr key seed hn 255 0 rfl (Nat.zero_le n)

/-- The expansion follows prf+, and yields nothing just when the blocks cannot be labelled, unless it takes exactly
    255 blocks. -/
theorem ikev2CalcPrfplus_follows_prfplus_iff (hlen : 1 ≤ len) :
    ((n ≤ 255 → ikev2CalcPrfplus cr tr key seed len = prfBlocks cr tr key seed n) ∧
      (ikev2CalcPrfplus cr tr key seed len = [] ↔ 255 < n)) ↔ n ≠ 255 := by
  rw [ikev2CalcPrfplus_eq cr tr key seed hn]
  constructor
  · rintro ⟨-, hnone⟩ h255
    exact absurd (hnone.mp (if_neg (by omega))) (by omega)
  intro h255
  constructor
  · intro hle
    rw [if_pos (by omega)]
  · by_cases hlt : n < 255
    · have hpos : (prfBlocks cr tr key seed n).length ≠ 0 := by
        rw [length_prfBlocks]
        exact Nat.pos_iff_ne_zero.mp (hlen.trans hn.1)
      rw [if_pos hlt, ← length_eq_zero_iff]
      exact iff_of_false hpos (by omega)
    · exact iff_of_true (if_neg hlt) (by omega)

end

end

theorem isLeast_mul {len l n : ℕ} (hle : len ≤ (n + 1) * l) (hlt : n * l < len) : IsLeast
    {n | len ≤ n * l} (n + 1) := by
  refine ⟨hle, fun m hm => ?_⟩
  by_contra h
  exact absurd (hm.trans (Nat.mul_le_mul_right l (by omega))) (not_le.mpr hlt)

/-- Two blocks of the prf HMAC-SHA1 for 40 bytes. -/
theorem ikev2CalcPrfplus_two_blocks :
    ikev2CalcPrfplus Crypto.zero ⟨transformTypePrf, 2, 20, 20, 0⟩ [] [] 40 =
      prfBlocks Crypto.zero ⟨transformTypePrf, 2, 20, 20, 0⟩ [] [] 2 :=
  ((ikev2CalcPrfplus_follows_prfplus_iff Crypto.zero ⟨transformTypePrf, 2, 20, 20, 0⟩ [] []
    (isLeast_mul (by decide) (by decide)) (by decide)).mpr (by decide)).1 (by decide)

/-- 5100 bytes from HMAC-SHA1 are the 255 blocks T1 to T255, and nothing is returned. -/
theorem ikev2CalcPrfplus_freed :
    IsLeast {n | 5100 ≤ n * 20} 255 ∧
      ikev2CalcPrfplus Crypto.zero ⟨transformTypePrf, 2, 20, 20, 0⟩ [] [] 5100 = [] := by
  have hn : IsLeast {n | 5100 ≤ n * 20} 255 := isLeast_mul (by decide) (by decide)
  exact ⟨hn, ikev2CalcPrfplus_eq Crypto.zero ⟨transformTypePrf, 2, 20, 20, 0⟩ [] [] hn⟩

end Vpp.Ikev2
