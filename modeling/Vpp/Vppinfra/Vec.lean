import Mathlib

/-! Deletion from a vector (`vppinfra/vec.h`). -/

namespace Vpp.Vppinfra
open List

/-- `vec_del1`: the last element takes the place of the deleted one. -/
def vecDel1 {α : Type} (v : List α) (i : ℕ) : List α :=
  match v.getLast? with
  | none => v
  | some a => (v.set i a).dropLast

theorem vecDel1_subset {α : Type} (v : List α) (i : ℕ) : vecDel1 v i ⊆ v := by
  intro a ha
  unfold vecDel1 at ha
  split at ha
  · exact ha
  · next b hlast =>
    rcases mem_or_eq_of_mem_set (dropLast_subset _ ha) with hmem | rfl
    · exact hmem
    · exact mem_of_getLast? hlast

/-- Up to order, the element at the position is gone. -/
theorem vecDel1_perm {α : Type} {l₁ l₂ : List α} {a : α} :
    (vecDel1 (l₁ ++ a :: l₂) l₁.length).Perm (l₁ ++ l₂) := by
  rcases eq_nil_or_concat l₂ with rfl | ⟨l, b, rfl⟩
  · simp [vecDel1]
  · have hlast : (l₁ ++ a :: l.concat b).getLast? = some b := by
      rw [concat_eq_append, ← cons_append, ← append_assoc, getLast?_concat]
    have hset : (l₁ ++ a :: l.concat b).set l₁.length b = (l₁ ++ b :: l) ++ [b] := by
      simp
    rw [vecDel1, hlast]
    dsimp only
    rw [hset, dropLast_concat, concat_eq_append]
    refine List.Perm.append_left l₁ ?_
    exact (perm_append_singleton b l).symm

end Vpp.Vppinfra
