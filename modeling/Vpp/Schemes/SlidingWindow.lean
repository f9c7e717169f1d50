import Mathlib

/-! Sliding-window duplicate filters over the naturals.

    A filter remembers the highest number accepted (`top`) and one mark for each of the `W` numbers
    ending at `top`; mark `d` stands for the number `top - d`. `Covers` says that the marks are enough
    to catch every repeat: the accepted numbers are distinct, none is above `top`, those still inside
    the window are marked, and so are the places of the window that lie below zero. The two moves of a
    filter keep it: `Covers.slide` (a number above `top`) and `Covers.fill` (an unmarked number inside
    the window).

    `Tracks` is the converse as well: a mark is set for the accepted numbers, and for zero and what lies below it, and
    for no other, so that the filter turns away nothing that it need not. -/

namespace Vpp.Schemes
open List

/-- The marks account for every accepted number that the window can still see. -/
structure Covers (W top : ℕ) (mark : ℕ → Prop) (accepted : List ℕ) : Prop where
  nodup : accepted.Nodup
  le_top : ∀ n ∈ accepted, n ≤ top
  marked : ∀ n ∈ accepted, top - n < W → mark (top - n)
  below_zero : ∀ d, top < d → d < W → mark d

variable {W top n : ℕ} {mark mark' : ℕ → Prop} {accepted : List ℕ}

/-- With every mark set, nothing need have been accepted. -/
theorem Covers.init (h : ∀ d < W, mark d) : Covers W 0 mark [] :=
  ⟨nodup_nil, by simp, by simp, fun d _ hd => h d hd⟩

/-- Accept a number above the top: the window slides up to it, and older marks move down. -/
theorem Covers.slide (h : Covers W top mark accepted) (hn : top < n) (hnew : mark' 0)
    (hold : ∀ d, n - top ≤ d → d < W → mark (d - (n - top)) → mark' d) :
    Covers W n mark' (n :: accepted) := by
  refine ⟨?_, ?_, ?_, ?_⟩
  · exact nodup_cons.mpr ⟨fun hmem => by have := h.le_top _ hmem; omega, h.nodup⟩
  · exact forall_mem_cons.mpr ⟨le_refl _, fun m hm => le_trans (h.le_top m hm) (le_of_lt hn)⟩
  · rintro m hm hlt
    rcases mem_cons.mp hm with rfl | hm
    · simpa using hnew
    · have hle := h.le_top m hm
      have hshift : n - m - (n - top) = top - m := by omega
      refine hold _ (by omega) hlt ?_
      rw [hshift]; exact h.marked m hm (by omega)
  · intro d hd hlt
    exact hold d (by omega) hlt (h.below_zero _ (by omega) (by omega))

/-- Accept an unmarked number inside the window: mark its place and leave the others as they are. -/
theorem Covers.fill (h : Covers W top mark accepted) (hn : n ≤ top) (hclear : ¬ mark (top - n))
    (hW : top - n < W) (hnew : mark' (top - n)) (hold : ∀ d, d < W → mark d → mark' d) :
    Covers W top mark' (n :: accepted) := by
  refine ⟨?_, ?_, ?_, ?_⟩
  · exact nodup_cons.mpr ⟨fun hmem => hclear (h.marked _ hmem hW), h.nodup⟩
  · exact forall_mem_cons.mpr ⟨hn, h.le_top⟩
  · exact forall_mem_cons.mpr ⟨fun _ => hnew, fun m hm hlt => hold _ hlt (h.marked m hm hlt)⟩
  · intro d hd hlt
    exact hold d hlt (h.below_zero d hd hlt)

/-- The marks are those of the accepted numbers, of zero and of the places below it. -/
structure Tracks (W top : ℕ) (mark : ℕ → Prop) (accepted : List ℕ) : Prop where
  top_eq : top = accepted.foldr max 0
  mark_iff : ∀ d < W, mark d ↔ top ≤ d ∨ top - d ∈ accepted

theorem le_foldr_max (h : n ∈ accepted) : n ≤ accepted.foldr max 0 := by
  induction accepted with
  | nil => cases h
  | cons m rest ih =>
    rcases mem_cons.mp h with rfl | h
    · exact le_max_left _ _
    · exact le_trans (ih h) (le_max_right _ _)

namespace Tracks

theorem init (h : ∀ d < W, mark d) : Tracks W 0 mark [] :=
  ⟨rfl, fun d hd => iff_of_true (h d hd) (.inl (Nat.zero_le d))⟩

section
variable (h : Tracks W top mark accepted)
include h

theorem le_top (hn : n ∈ accepted) : n ≤ top := h.top_eq ▸ le_foldr_max hn

theorem slide (hn : top < n)
    (hmark : ∀ d < W, mark' d ↔ d = 0 ∨ n - top ≤ d ∧ mark (d - (n - top))) :
    Tracks W n mark' (n :: accepted) where
  top_eq := by
    rw [foldr_cons, ← h.top_eq]
    exact (max_eq_left (le_of_lt hn)).symm
  mark_iff d hd := by
    rw [hmark d hd, mem_cons]
    rcases eq_zero_or_pos d with rfl | hpos
    · simp
    · have hne : n - d ≠ n := by omega
      rcases lt_or_ge d (n - top) with hnew | hold
      · -- a number that has come into the window
        have hmem : n - d ∉ accepted := fun hmem => by
          have hle := h.le_top hmem
          omega
        simp only [hmem, hne, or_false]
        omega
      · have hshift : top - (d - (n - top)) = n - d := by omega
        rw [h.mark_iff _ (by omega), hshift]
        simp only [hne, false_or]
        refine ⟨?_, ?_⟩
        · rintro (hzero | ⟨-, hle | hmem⟩)
          · omega
          · exact .inl (by omega)
          · exact .inr hmem
        · rintro (hle | hmem)
          · exact .inr ⟨hold, .inl (by omega)⟩
          · exact .inr ⟨hold, .inr hmem⟩

theorem fill (hn : n ≤ top)
    (hmark : ∀ d < W, mark' d ↔ d = top - n ∨ mark d) :
    Tracks W top mark' (n :: accepted) where
  top_eq := by
    rw [foldr_cons, ← h.top_eq]
    exact (max_eq_right hn).symm
  mark_iff d hd := by
    rw [hmark d hd, h.mark_iff d hd, mem_cons]
    constructor
    · rintro (rfl | hle | hmem)
      · exact .inr (.inl (by omega))
      · exact .inl hle
      · exact .inr (.inr hmem)
    · rintro (hle | heq | hmem)
      · exact .inr (.inl hle)
      · by_cases hzero : d ≤ top
        · exact .inl (by omega)
        · exact .inr (.inl (by omega))
      · exact .inr (.inr hmem)

end

end Tracks

end Vpp.Schemes
