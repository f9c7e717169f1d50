import Mathlib

/-! A bucket that fills at a rate up to a limit, and what can be taken out of it.

        level     limit ------.        .--
                              |\      /
                              | `----'            each use leaves a level behind
                              +----------- time

    Whatever the levels in between, what is taken in a stretch of uses is at most the limit and what came in between
    the first use and the last (`total_le`). -/

namespace Vpp.Schemes
open List

/-- A use of the bucket: when, how much is taken, and what is left. -/
structure Use where
  time : ℕ
  taken : ℕ
  level : ℕ

/-- Nothing was in the bucket beyond its limit. -/
def Use.Fits (limit : ℕ) (u : Use) : Prop := u.level + u.taken ≤ limit

/-- Nothing came in between two uses beyond the rate. -/
def Use.Follows (rate : ℕ) (u v : Use) : Prop :=
  u.time ≤ v.time ∧ v.level + v.taken ≤ u.level + rate * (v.time - u.time)

/-- What a sequence of uses takes. -/
def total (l : List Use) : ℕ := (l.map Use.taken).sum

variable {limit rate : ℕ} {u v : Use} {l : List Use}

@[simp] theorem total_nil : total [] = 0 := rfl

@[simp] theorem total_cons : total (u :: l) = u.taken + total l := by simp [total]

/-- What is taken after a use, and the level at the end, come from its level and from what came in since. -/
theorem total_add_level_le (h : (u :: l).IsChain (Use.Follows rate)) :
    u.time ≤ ((u :: l).getLast (by simp)).time ∧
      total l + ((u :: l).getLast (by simp)).level ≤
        u.level + rate * (((u :: l).getLast (by simp)).time - u.time) := by
  induction l generalizing u with
  | nil => simp
  | cons v l ih =>
    obtain ⟨⟨hle, hstep⟩, hrest⟩ := isChain_cons_cons.mp h
    obtain ⟨hlast, htotal⟩ := ih hrest
    rw [getLast_cons (cons_ne_nil v l), total_cons]
    refine ⟨le_trans hle hlast, ?_⟩
    generalize ((v :: l).getLast (cons_ne_nil v l)) = last at hlast htotal ⊢
    have hsplit : rate * (last.time - u.time) = rate * (v.time - u.time) + rate * (last.time - v.time) := by
      rw [← mul_add]
      congr 1
      omega
    omega

theorem total_le (h : (u :: l).IsChain (Use.Follows rate)) (hu : u.Fits limit) :
    total (u :: l) ≤ limit + rate * (((u :: l).getLast (by simp)).time - u.time) := by
  have htotal := (total_add_level_le h).2
  have hfits : u.level + u.taken ≤ limit := hu
  rw [total_cons]
  omega

end Vpp.Schemes
