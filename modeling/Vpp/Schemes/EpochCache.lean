import Mathlib

/-! A direct-mapped cache that is invalidated by an epoch.

    Every bucket holds one entry, and a new entry replaces the old one. An entry carries the epoch it was
    made in and is only found in that epoch, so the whole cache is invalidated by moving on to the next
    epoch. When the epoch is about to wrap around, the table is blanked as well:

        epoch  n      n+1    ..    2^w-1      0
        table  kept   kept         blanked

    So no entry is ever from a later epoch than the current one, and the entries of the current epoch are
    blank or were made in it (`Holds`). Blank entries look like entries of epoch 0 for the blank key. -/

namespace Vpp.Schemes
open BitVec

structure CacheEntry (κ ν : Type) (w : ℕ) where
  key : κ
  value : ν
  epoch : BitVec w

structure EpochCache (κ ν : Type) (w : ℕ) where
  table : ℕ → CacheEntry κ ν w
  epoch : BitVec w

namespace EpochCache

section
variable {κ ν : Type} {w : ℕ} {bucket : κ → ℕ} {blank : CacheEntry κ ν w} {c : EpochCache κ ν w}
variable {P Q : κ → ν → Prop} {k : κ} {v : ν}

/-- The entry of the key, where there is one of the current epoch. -/
def find [DecidableEq κ] (bucket : κ → ℕ) (c : EpochCache κ ν w) (k : κ) : Option ν :=
  let e := c.table (bucket k)
  if e.key = k ∧ e.epoch = c.epoch then some e.value else none

def add (bucket : κ → ℕ) (c : EpochCache κ ν w) (k : κ) (v : ν) : EpochCache κ ν w :=
  { c with table := Function.update c.table (bucket k) ⟨k, v, c.epoch⟩ }

/-- On to the next epoch. -/
def bump (blank : CacheEntry κ ν w) (c : EpochCache κ ν w) : EpochCache κ ν w where
  table := if c.epoch = allOnes w then fun _ => blank else c.table
  epoch := c.epoch + 1

/-- Every entry of the current epoch is blank or satisfies `P`. -/
def Holds (blank : CacheEntry κ ν w) (P : κ → ν → Prop) (c : EpochCache κ ν w) : Prop :=
  ∀ b, (c.table b).epoch ≤ c.epoch ∧
    ((c.table b).epoch = c.epoch → c.table b = blank ∨ P (c.table b).key (c.table b).value)

theorem Holds.new (hblank : blank.epoch = 0) : Holds blank P ⟨fun _ => blank, 0⟩ := by
  intro b
  exact ⟨by rw [hblank]; exact BitVec.le_refl _, fun _ => Or.inl rfl⟩

theorem Holds.mono (h : Holds blank P c) (hPQ : ∀ k v, P k v → Q k v) : Holds blank Q c := by
  intro b
  exact ⟨(h b).1, fun heq => ((h b).2 heq).imp_right (hPQ _ _)⟩

theorem Holds.add (h : Holds blank P c) (hP : P k v) : Holds blank P (c.add bucket k v) := by
  intro b
  unfold EpochCache.add
  by_cases hb : b = bucket k
  · subst hb
    simp [hP]
  · simpa [hb] using h b

/-- Nothing that was said of the entries has to hold in the next epoch: none of them is found. -/
theorem Holds.bump (hblank : blank.epoch = 0) (h : Holds blank P c) : Holds blank Q (c.bump blank) := by
  intro b
  unfold EpochCache.bump
  by_cases hwrap : c.epoch = allOnes w
  · simp [hwrap, hblank, le_def]
  · have hlt : c.epoch < c.epoch + 1 := by
      rw [lt_def, toNat_add]
      have hmax : c.epoch.toNat ≠ 2 ^ w - 1 := by
        intro heq
        exact hwrap (eq_of_toNat_eq (by simpa using heq))
      have hpow := c.epoch.isLt
      rcases eq_zero_or_pos w with rfl | hw
      · omega
      · have hone : (1 : BitVec w).toNat = 1 := by
          simp [Nat.mod_eq_of_lt (Nat.one_lt_two_pow (Nat.pos_iff_ne_zero.mp hw))]
        rw [hone, Nat.mod_eq_of_lt (by omega)]
        omega
    simp only [hwrap, if_false]
    have hle := (h b).1
    refine ⟨BitVec.le_trans hle (BitVec.le_of_lt hlt), fun heq => ?_⟩
    rw [heq] at hle
    exact absurd hlt (BitVec.not_lt.mpr hle)

/-- What is found satisfies `P`, or is the blank entry, in epoch 0. -/
theorem Holds.find [DecidableEq κ] (h : Holds blank P c) (hfind : c.find bucket k = some v) :
    P k v ∨ k = blank.key ∧ v = blank.value ∧ c.epoch = blank.epoch := by
  unfold EpochCache.find at hfind
  dsimp only at hfind
  split at hfind
  · next hhit =>
    obtain ⟨hkey, hepoch⟩ := hhit
    cases hfind
    rcases (h _).2 hepoch with heq | hP
    · exact Or.inr ⟨by rw [← hkey, heq], by rw [heq], by rw [← hepoch, heq]⟩
    · exact Or.inl (by rw [hkey] at hP; exact hP)
  · cases hfind

end

end EpochCache

end Vpp.Schemes
