import Mathlib

/-! Patterns over words of bits: some bits are fixed, the others are free.

        mask     1 1 0 1
        value    1 0 0 1          matches  1 0 _ 1

    A pattern is below another if all that it matches is matched by the other one. -/

namespace Vpp.Schemes
open BitVec

/-- A pattern; the value has no bits outside the mask. -/
structure Pattern (w : ℕ) where
  mask : BitVec w
  value : BitVec w
  value_le : value &&& mask = value
deriving DecidableEq

namespace Pattern
variable {w : ℕ} {p q : Pattern w} {key : BitVec w}

@[ext] theorem ext (hmask : p.mask = q.mask) (hvalue : p.value = q.value) : p = q := by
  cases p; cases q
  cases hmask; cases hvalue
  rfl

def Matches (p : Pattern w) (key : BitVec w) : Prop := key &&& p.mask = p.value
deriving Decidable

/-- `p ≤ q`: `q` fixes part of the bits of `p`, at the same values. -/
instance : LE (Pattern w) := ⟨fun p q => q.mask &&& p.mask = q.mask ∧ p.value &&& q.mask = q.value⟩

instance : DecidableLE (Pattern w) := fun p q =>
  inferInstanceAs (Decidable (q.mask &&& p.mask = q.mask ∧ p.value &&& q.mask = q.value))

instance : PartialOrder (Pattern w) where
  le_refl p := ⟨and_self, p.value_le⟩
  le_trans p q r hpq hqr := by
    refine ⟨?_, ?_⟩
    · calc r.mask &&& p.mask = r.mask &&& q.mask &&& p.mask := by rw [hqr.1]
        _ = r.mask &&& (q.mask &&& p.mask) := and_assoc _ _ _
        _ = r.mask := by rw [hpq.1, hqr.1]
    · calc p.value &&& r.mask = p.value &&& (r.mask &&& q.mask) := by rw [hqr.1]
        _ = p.value &&& q.mask &&& r.mask := by rw [BitVec.and_comm r.mask, BitVec.and_assoc]
        _ = r.value := by rw [hpq.2, hqr.2]
  le_antisymm p q hpq hqp := by
    have hmask : p.mask = q.mask := by
      calc p.mask = p.mask &&& q.mask := hqp.1.symm
        _ = q.mask &&& p.mask := and_comm _ _
        _ = q.mask := hpq.1
    refine Pattern.ext hmask ?_
    rw [← hpq.2, ← hmask, p.value_le]

theorem matches_value_of_le (h : p ≤ q) : q.Matches p.value := h.2

theorem Matches.mono (hp : p.Matches key) (h : p ≤ q) : q.Matches key := by
  rw [Matches, ← h.2, ← hp, BitVec.and_assoc, BitVec.and_comm p.mask, h.1]

/-- Of two patterns that match the same key, the one that fixes more bits is below. -/
theorem Matches.le (hp : p.Matches key) (hq : q.Matches key) (hmask : q.mask &&& p.mask = q.mask) : p ≤ q := by
  refine ⟨hmask, ?_⟩
  rw [← hp, BitVec.and_assoc, BitVec.and_comm p.mask, hmask]
  exact hq

/-- The pattern that matches everything. -/
def top (w : ℕ) : Pattern w := ⟨0, 0, and_zero⟩

theorem le_top (p : Pattern w) : p ≤ top w := ⟨zero_and, and_zero⟩

theorem matches_top (key : BitVec w) : (top w).Matches key := and_zero

end Pattern

end Vpp.Schemes
